import BanglaScript.Proofs.Parser.Advance

/-!
# What parsers give

A parser gives what satisfies a condition if its result does whenever it
succeeds on tokens of a certain sort.  There is a rule for every way of putting
parsers together, which also counts the tokens that are taken.  So the parsers of
expressions and of statements give what satisfies a condition that carries over
from the parts to the whole.  An expression, a block and a statement take at least
one token if they succeed.
-/

namespace BanglaScript.Parser

variable {α β : Type} {sort : Token → Prop} {least more : Nat} {parser : Parser α}
  {next : α → Parser β} {condition : α → Prop}

/-- A success takes so many tokens, and on tokens of the sort it satisfies the condition. -/
structure Gives (sort : Token → Prop) (least : Nat) (parser : Parser α) (condition : α → Prop) :
    Prop extends Takes least parser where
  holds : ∀ ⦃input : Input⦄ ⦃result : α⦄ ⦃rest : Input⦄, (∀ token ∈ input.rest, sort token) →
    parser input = .ok result rest → condition result

namespace Takes

variable (takes : Takes least parser)

include takes

/-- What a parser leaves are tokens of its input. -/
theorem sorted {input rest : Input} {result : α} (sorted : ∀ token ∈ input.rest, sort token)
    (success : parser input = .ok result rest) : ∀ token ∈ rest.rest, sort token :=
  fun token member => sorted token ((takes.of_ok success).suffix.subset member)

theorem gives : Gives sort least parser fun _ => True := ⟨takes, fun _ _ _ _ _ => trivial⟩

variable {final : β → Prop} (continues : ∀ result, Gives sort more (next result) final)

include continues

theorem holds_bind
    ⦃input : Input⦄ ⦃result : β⦄ ⦃rest : Input⦄ (sorted : ∀ token ∈ input.rest, sort token)
    (success : (parser >>= next) input = .ok result rest) : final result := by
  obtain ⟨first, _, read, continued⟩ := exists_of_bind_eq_ok success
  exact (continues first).holds (takes.sorted sorted read) continued

/-- A parser whose result does not matter in front of another one. -/
theorem bindGives : Gives sort least (parser >>= next) final :=
  ⟨takes.bind fun result => (continues result).toTakes, takes.holds_bind continues⟩

theorem afterGives : Gives sort more (parser >>= next) final :=
  ⟨takes.after fun result => (continues result).toTakes, takes.holds_bind continues⟩

end Takes

namespace Gives

theorem pure {result : α} (holds : condition result) : Gives sort 0 (Pure.pure result) condition :=
  ⟨.pure result, fun _ _ _ _ success => by cases success; exact holds⟩

theorem fail {fault : SyntaxFault} : Gives sort least (Parser.fail fault) condition :=
  ⟨.fail fault, fun _ _ _ _ success => by cases success⟩

variable (gives : Gives sort least parser condition)

include gives

theorem advances : Gives sort 0 parser condition := ⟨gives.toTakes.advances, gives.holds⟩

theorem imp {other : α → Prop} (implies : ∀ result, condition result → other result) :
    Gives sort least parser other :=
  ⟨gives.toTakes, fun _ _ _ sorted success => implies _ (gives.holds sorted success)⟩

theorem within {context : String} : Gives sort least (within context parser) condition :=
  ⟨gives.toTakes.within context, fun _ _ _ sorted success =>
    gives.holds sorted (within_eq_ok_iff.mp success)⟩

/-- What comes behind a parser may use what the parser gives. -/
theorem bind {final : β → Prop}
    (continues : ∀ result, Gives sort more (next result) fun last =>
      condition result → final last) : Gives sort least (parser >>= next) final := by
  refine ⟨gives.toTakes.bind fun result => (continues result).toTakes, ?_⟩
  intro input last rest sorted success
  obtain ⟨result, _, read, continued⟩ := exists_of_bind_eq_ok success
  exact (continues result).holds (gives.sorted sorted read) continued (gives.holds sorted read)

end Gives

/-! ## Lists of phrases -/

section Lists

variable {phrase : Parser α} (gives : Gives sort least phrase condition)

include gives

/-- A phrase with others behind it. -/
theorem gives_cons {others : Parser (List α)}
    (rest : Gives sort more others fun results => ∀ result ∈ results, condition result) :
    Gives sort least (do
      let first ← phrase
      let others ← others
      pure (first :: others)) fun results => ∀ result ∈ results, condition result :=
  gives.bind fun _ => rest.bind fun _ =>
    .pure fun othersHold firstHolds => List.forall_mem_cons.mpr ⟨firstHolds, othersHold⟩

theorem gives_phrasesUntil {stop : TokenKind → Bool} :
    Gives sort 0 (phrasesUntil stop phrase) fun results =>
      ∀ result ∈ results, condition result := by
  refine (Takes.look _).afterGives fun bound => ?_
  induction bound with
  | zero => exact .fail
  | succ bound ih =>
    refine (Takes.look Input.kind).afterGives fun kind => ?_
    split
    · exact .pure (List.forall_mem_nil _)
    · exact gives_cons gives.advances ih

theorem gives_phrasesAfterCommas :
    Gives sort 0 (phrasesAfterCommas phrase) fun results =>
      ∀ result ∈ results, condition result := by
  refine (Takes.look _).afterGives fun bound => ?_
  induction bound with
  | zero => exact .fail
  | succ bound ih =>
    refine (Takes.look Input.kind).afterGives fun kind => ?_
    split
    · exact Takes.accept.bindGives fun _ => gives_cons gives ih
    · exact .pure (List.forall_mem_nil _)

theorem gives_separatedByCommas :
    Gives sort 0 (separatedByCommas phrase) fun results =>
      ∀ result ∈ results, condition result := by
  refine (Takes.look Input.kind).afterGives fun kind => ?_
  split
  · exact .pure (List.forall_mem_nil _)
  · exact gives_cons gives.advances (gives_phrasesAfterCommas gives)

end Lists

/-! ## Expressions -/

/-- The condition holds of strings and of the numbers and names of tokens of the sort, and
of an expression if it holds of its parts. -/
structure Composes (sort : Token → Prop) (condition : Expr → Prop) : Prop where
  string : ∀ contents, condition (.literal (.string contents))
  number : ∀ token value, sort token → token.value = some (.number value) →
    condition (.literal (.number value))
  identifier : ∀ token, sort token → token.kind = .identifier → condition (.identifier token.text)
  call : ∀ token arguments, sort token → token.kind = .identifier →
    (∀ argument ∈ arguments, condition argument) → condition (.call token.text arguments)
  binary : ∀ operator lhs rhs, condition lhs → condition rhs → condition (.binary operator lhs rhs)

theorem composes_true : Composes (fun _ => True) fun _ => True := by
  constructor <;> intros <;> trivial

section Expressions

variable {holds : Expr → Prop} {nested primary : Parser Expr}

theorem gives_callWith (gives : Gives sort least nested holds) (name : String) :
    Gives sort 1 (callWith nested name) fun result =>
      (∀ arguments, (∀ argument ∈ arguments, holds argument) → holds (.call name arguments)) →
        holds result :=
  ((Takes.consume _).bindGives fun _ => (gives_separatedByCommas gives).bind fun arguments =>
    (Takes.consume _).bindGives fun _ => .pure fun argumentsHold composes =>
      composes arguments argumentsHold).within

theorem Takes.advances_primaryWith (takes : Takes least nested) :
    Takes 0 (Parser.primaryWith nested) := by
  refine ((expectAny _).after fun kind => ?_).within _
  split
  · exact accept.bind fun _ => takes.bind fun _ => ((consume _).within _).bind fun _ => pure _
  · refine (look _).after fun value => ?_
    split
    · exact accept.bind fun _ => pure _
    · exact fail _
  · exact (look _).bind fun _ => accept.bind fun _ => pure _
  · refine (look _).after fun name => accept.after fun _ => (look _).after fun kind => ?_
    split
    · exact (gives_callWith (takes.gives : Gives (fun _ => True) _ _ _) name).advances.toTakes
    · exact pure _
  · exact fail _

mutual

theorem gives_climb (composes : Composes sort holds) (gives : Gives sort least primary holds)
    (bound level : Nat) (lhs : Expr) :
    Gives sort 0 (climb primary bound level lhs) fun result => holds lhs → holds result := by
  cases bound with
  | zero => exact .fail
  | succ bound =>
    refine (Takes.look nextOperator?).afterGives fun operator => ?_
    cases operator with
    | none => exact .pure id
    | some =>
      dsimp only
      split
      · exact Takes.accept.bindGives fun _ => gives.bind fun operand =>
          (gives_tighten composes gives bound _ operand).bind fun rhs =>
            (gives_climb composes gives bound _ _).imp
              fun _ climbs tightened operandHolds lhsHolds =>
                climbs (composes.binary _ _ _ lhsHolds (tightened operandHolds))
      · exact .pure id

theorem gives_tighten (composes : Composes sort holds) (gives : Gives sort least primary holds)
    (bound level : Nat) (rhs : Expr) :
    Gives sort 0 (tighten primary bound level rhs) fun result => holds rhs → holds result := by
  cases bound with
  | zero => exact .fail
  | succ bound =>
    refine (Takes.look nextOperator?).afterGives fun operator => ?_
    cases operator with
    | none => exact .pure id
    | some =>
      dsimp only
      split
      · exact (gives_climb composes gives bound _ rhs).bind fun extended =>
          (gives_tighten composes gives bound _ extended).imp fun _ tightened climbed rhsHolds =>
            tightened (climbed rhsHolds)
      · exact .pure id

end

variable (composes : Composes sort holds)

include composes

/-- A success takes a first token and goes on behind it. -/
theorem exists_of_primaryWith (gives : Gives sort least nested holds) {input rest : Input}
    {result : Expr} (success : primaryWith nested input = .ok result rest) :
    ∃ token tokens, input.rest = token :: tokens ∧ rest.IsBehind ⟨tokens, input.endPosition⟩ ∧
      ((∀ other ∈ tokens, sort other) → sort token → holds result) := by
  obtain ⟨tokens, endPosition⟩ := input
  cases tokens with
  | nil =>
    rw [primaryWith_of_other rfl] at success
    cases success
  | cons token tokens =>
    refine ⟨token, tokens, rfl, ?_⟩
    have of_success {behind : Parser Expr}
        (gives : Gives sort 0 behind fun result => sort token → holds result)
        (success : behind ⟨tokens, endPosition⟩ = .ok result rest) :
        rest.IsBehind ⟨tokens, endPosition⟩ ∧
          ((∀ other ∈ tokens, sort other) → sort token → holds result) :=
      ⟨gives.of_ok success, fun sorted => gives.holds sorted success⟩
    cases found : token.kind with
    | openParen =>
      rw [primaryWith_of_openParen found] at success
      refine of_success (Gives.within ?_) success
      exact gives.advances.bind fun _ => ((Takes.consume _).within _).bindGives fun _ =>
        .pure fun given _ => given
    | number =>
      by_cases valued : ∃ number, token.value = some (.number number)
      · obtain ⟨number, value⟩ := valued
        rw [primaryWith_of_number found value] at success
        cases success
        exact ⟨.refl _, fun _ sorted => composes.number token number sorted value⟩
      · rw [primaryWith_of_no_number found fun number value => valued ⟨number, value⟩]
          at success
        cases success
    | string =>
      rw [primaryWith_of_string found] at success
      cases success
      exact ⟨.refl _, fun _ _ => composes.string _⟩
    | identifier =>
      rw [primaryWith_of_identifier found] at success
      refine of_success (Gives.within ((Takes.look _).afterGives fun kind => ?_)) success
      split
      · exact (gives_callWith gives token.text).advances.imp fun _ composed sorted =>
          composed fun arguments => composes.call token arguments sorted found
      · exact .pure fun sorted => composes.identifier token sorted found
    | _ =>
      rw [primaryWith_of_other (by simp [Input.kind, found, TokenKind.startsPrimary])]
        at success
      cases success

theorem gives_primaryWith (gives : Gives sort least nested holds) :
    Gives sort 1 (primaryWith nested) holds := by
  refine ⟨⟨gives.toTakes.advances_primaryWith.behind, fun input rest result success => ?_⟩,
    fun input result rest sorted success => ?_⟩
  · obtain ⟨token, tokens, listed, behind, _⟩ := exists_of_primaryWith composes gives success
    rw [listed]
    exact Nat.succ_le_succ behind.length_le
  · obtain ⟨_, _, listed, _, given⟩ := exists_of_primaryWith composes gives success
    rw [listed, List.forall_mem_cons] at sorted
    exact given sorted.2 sorted.1

theorem gives_expressionWith (gives : Gives sort least nested holds) :
    Gives sort 1 (expressionWith nested) holds :=
  have primary := gives_primaryWith composes gives
  (primary.bind fun lhs => ((Takes.look _).bindGives fun bound =>
    gives_climb composes primary bound 0 lhs : Gives sort 0 (chain _ 0 lhs) _).within).within

theorem gives_expressionAt (bound : Nat) : Gives sort 1 (expressionAt bound) holds := by
  induction bound with
  | zero => exact .fail
  | succ bound ih => exact gives_expressionWith composes ih

theorem gives_expression : Gives sort 1 expression holds :=
  (Takes.look _).afterGives fun bound => gives_expressionAt composes bound

end Expressions

/-! ## Statements -/

/-- The text of an identifier. -/
theorem gives_identifier {condition : String → Prop}
    (words : ∀ token, sort token → token.kind = .identifier → condition token.text) :
    Gives sort 1 identifier condition := by
  refine ⟨Takes.identifier, fun input name rest sorted success => ?_⟩
  obtain ⟨token, named, rfl, rfl⟩ := exists_of_identifier_eq_ok success
  exact words token (sorted token List.mem_cons_self) named

/-- The conditions hold of the names of tokens of the sort, and the last one of a statement
if they hold of its parts. -/
structure Assembles (sort : Token → Prop) (onName : String → Prop) (onExpr : Expr → Prop)
    (holds : Statement → Prop) : Prop extends Composes sort onExpr where
  name : ∀ token, sort token → token.kind = .identifier → onName token.text
  declared : ∀ name, onName name → holds (.declaration name none)
  initialized : ∀ name value, onName name → onExpr value → holds (.declaration name (some value))
  assigned : ∀ name value, onName name → onExpr value → holds (.assignment name value)
  ifThen : ∀ test body, onExpr test → (∀ phrase ∈ body, holds phrase) → holds (.ifThen test body)
  ifElse : ∀ test body alternative, onExpr test → (∀ phrase ∈ body, holds phrase) →
    (∀ phrase ∈ alternative, holds phrase) → holds (.ifElse test body alternative)
  repeatWhile : ∀ test body, onExpr test → (∀ phrase ∈ body, holds phrase) →
    holds (.repeatWhile test body)
  block : ∀ body, (∀ phrase ∈ body, holds phrase) → holds (.block body)
  function : ∀ name parameters body, onName name → (∀ parameter ∈ parameters, onName parameter) →
    (∀ phrase ∈ body, holds phrase) → holds (.function name parameters body)
  left : holds (.giveBack none)
  givenBack : ∀ value, onExpr value → holds (.giveBack (some value))
  printed : ∀ value, onExpr value → holds (.print value)
  evaluated : ∀ value, onExpr value → holds (.expression value)

theorem assembles_true :
    Assembles (fun _ => True) (fun _ => True) (fun _ => True) fun _ => True := by
  constructor <;> intros <;> first | exact composes_true | trivial

theorem gives_condition {onExpr : Expr → Prop} (composes : Composes sort onExpr) :
    Gives sort 1 Parser.condition onExpr :=
  ((Takes.consume _).bindGives fun _ => (gives_expression composes).bind fun _ =>
    (Takes.consume _).bindGives fun _ => .pure id).within

section Statements

variable {onName : String → Prop} {onExpr : Expr → Prop} {holds : Statement → Prop}
  {nested : Parser Statement}

theorem gives_blockWith (gives : Gives sort least nested holds) :
    Gives sort 1 (blockWith nested) fun body => ∀ phrase ∈ body, holds phrase :=
  ((Takes.consume _).bindGives fun _ => (gives_phrasesUntil gives).bind fun _ =>
    (Takes.consume _).bindGives fun _ => .pure id).within

variable (assembles : Assembles sort onName onExpr holds)

include assembles

/-- An expression up to a semicolon. -/
theorem gives_terminated {change : Expr → Statement} {final : Statement → Prop}
    (changes : ∀ value, onExpr value → final (change value)) :
    Gives sort 1 (do
      let value ← expression
      consume .semicolon
      pure (change value)) final :=
  (gives_expression assembles.toComposes).bind fun value => (Takes.consume _).bindGives fun _ =>
    .pure (changes value)

theorem gives_declaration : Gives sort 1 declaration holds := by
  refine ((Takes.keyword _).bindGives fun _ => (gives_identifier assembles.name).bind fun name =>
    (Takes.look _).afterGives fun kind => (?_ : Gives sort 0 _ _)).within
  split
  · exact Takes.accept.bindGives fun _ => gives_terminated assembles fun value given named =>
      assembles.initialized name value named given
  · exact ((Takes.consume _).bindGives fun _ => .pure (assembles.declared name)).advances

variable (gives : Gives sort least nested holds)

include gives

theorem gives_conditionalWith : Gives sort 1 (conditionalWith nested) holds := by
  refine ((Takes.keyword _).bindGives fun _ =>
    (gives_condition assembles.toComposes).bind fun test => (gives_blockWith gives).bind fun body =>
      (Takes.look _).afterGives fun kind => (?_ : Gives sort 0 _ _)).within
  split
  · exact Takes.accept.bindGives fun _ => (gives_blockWith gives).bind fun alternative =>
      .pure fun elseHolds bodyHolds testHolds =>
        assembles.ifElse test body alternative testHolds bodyHolds elseHolds
  · exact .pure fun bodyHolds testHolds => assembles.ifThen test body testHolds bodyHolds

theorem gives_functionWith : Gives sort 1 (functionWith nested) holds :=
  have names : Gives sort 1 identifier onName := gives_identifier assembles.name
  ((Takes.keyword _).bindGives fun _ => names.bind fun name => (Takes.consume _).bindGives fun _ =>
    (gives_separatedByCommas names).within.bind fun parameters =>
      (Takes.consume _).bindGives fun _ => (gives_blockWith gives).bind fun body =>
        .pure fun bodyHolds parametersNamed named =>
          assembles.function name parameters body named parametersNamed bodyHolds).within

theorem gives_statementWith : Gives sort 1 (statementWith nested) holds := by
  have other : Gives sort 1 expressionStatement holds :=
    gives_terminated assembles assembles.evaluated
  refine ((Takes.look _).afterGives fun kind => ?_).within
  unfold statementFrom
  split
  · exact gives_declaration assembles
  · exact gives_conditionalWith assembles gives
  · exact Takes.accept.afterGives fun _ =>
      (gives_condition assembles.toComposes).bind fun test =>
        (gives_blockWith gives).bind fun body => .pure fun bodyHolds testHolds =>
          assembles.repeatWhile test body testHolds bodyHolds
  · exact gives_functionWith assembles gives
  · refine Takes.accept.afterGives fun _ => (Takes.look _).afterGives fun kind => ?_
    split
    · exact (Takes.consume _).bindGives fun _ => .pure assembles.left
    · exact gives_terminated assembles assembles.givenBack
  · exact Takes.accept.afterGives fun _ => (Takes.consume _).bindGives fun _ =>
      (gives_expression assembles.toComposes).bind fun value => (Takes.consume _).bindGives fun _ =>
        (Takes.consume _).bindGives fun _ => .pure (assembles.printed value)
  · refine (Takes.look _).afterGives fun second => ?_
    split
    · exact (gives_identifier assembles.name).bind fun name => Takes.accept.bindGives fun _ =>
        gives_terminated assembles fun value given named =>
          assembles.assigned name value named given
    · exact other
  · exact (gives_blockWith gives).bind fun body => .pure (assembles.block body)
  · exact other

omit gives

theorem gives_statementAt (bound : Nat) : Gives sort 1 (statementAt bound) holds := by
  induction bound with
  | zero => exact .fail
  | succ bound ih => exact gives_statementWith assembles ih

theorem gives_statement : Gives sort 1 statement holds :=
  (Takes.look _).afterGives fun bound => gives_statementAt assembles bound

end Statements

end BanglaScript.Parser

/-! ## Tokens that are taken -/

namespace BanglaScript.Parser.Takes

variable {least : Nat}

theorem separatedByCommas {α : Type} {phrase : Parser α} (takes : Takes least phrase) :
    Takes 0 (Parser.separatedByCommas phrase) :=
  have gives : Gives (fun _ => True) least phrase fun _ => True := takes.gives
  (gives_separatedByCommas gives).toTakes

theorem expressionAt (bound : Nat) : Takes 1 (Parser.expressionAt bound) :=
  (gives_expressionAt composes_true bound).toTakes

theorem expression : Takes 1 Parser.expression := (gives_expression composes_true).toTakes

theorem condition : Takes 1 Parser.condition := (gives_condition composes_true).toTakes

theorem statementAt (bound : Nat) : Takes 1 (Parser.statementAt bound) :=
  (gives_statementAt assembles_true bound).toTakes

theorem statement : Takes 1 Parser.statement := (gives_statement assembles_true).toTakes

theorem primaryWith {nested : Parser Expr} (takes : Takes least nested) :
    Takes 1 (Parser.primaryWith nested) :=
  (gives_primaryWith composes_true takes.gives).toTakes

theorem climb {primary : Parser Expr} (takes : Takes least primary) (bound level : Nat)
    (lhs : Expr) : Takes 0 (Parser.climb primary bound level lhs) :=
  (gives_climb composes_true takes.gives bound level lhs).toTakes

theorem blockWith {nested : Parser Statement} (takes : Takes least nested) :
    Takes 1 (Parser.blockWith nested) :=
  have gives : Gives (fun _ => True) least nested fun _ => True := takes.gives
  (gives_blockWith gives).toTakes

theorem function : Takes 1 Parser.function :=
  (gives_functionWith assembles_true statement.gives).toTakes

end BanglaScript.Parser.Takes
