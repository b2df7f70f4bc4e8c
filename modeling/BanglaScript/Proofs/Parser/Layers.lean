import BanglaScript.Proofs.Parser.Unbounded

/-!
# Expressions in layers

The grammar of expressions has one layer for each sort of operator: equality,
relational, additive and multiplicative.  A phrase of a layer is made of phrases of
the next layer with operators of its own sort in between, and it is folded to the
left while it is read.  Primary expressions are the innermost layer, and what stands
in their parentheses is a phrase of the outermost one.

Reading by these layers and reading by precedence are the same: both give the same
tree and leave the same tokens, or they fail with the same fault at the same place.
Only the names of the phrases around a fault differ.
-/

namespace BanglaScript.Parser

variable {α β : Type}

/-! ## Reading by layers -/

/-- Further operands behind `lhs`, each behind one of the operators. -/
def foldOperators (operators : List BinaryOperator) (operand : Parser Expr) :
    Nat → Expr → Parser Expr
  | 0, _ => exhausted
  | bound + 1, lhs => do
    match ← look nextOperator? with
    | none => pure lhs
    | some operator =>
      if operator ∈ operators then
        accept
        let rhs ← operand
        foldOperators operators operand bound (.binary operator lhs rhs)
      else
        pure lhs

/-- Operands with operators in between, folded to the left. -/
def layer (operators : List BinaryOperator) (operand : Parser Expr) : Parser Expr := do
  let first ← operand
  foldOperators operators operand (← rounds) first

/-- Products and quotients. -/
def multiplicative (primary : Parser Expr) : Parser Expr := layer [.multiply, .divide] primary

/-- Sums and differences. -/
def additive (primary : Parser Expr) : Parser Expr :=
  layer [.add, .subtract] (multiplicative primary)

/-- Comparisons by order. -/
def relational (primary : Parser Expr) : Parser Expr :=
  layer [.less, .greater, .lessEqual, .greaterEqual] (additive primary)

/-- Comparisons by equality. -/
def equality (primary : Parser Expr) : Parser Expr :=
  layer [.equal, .notEqual] (relational primary)

/-- One expression with fewer levels of parentheses than the bound, read by layers. -/
def layeredAt : Nat → Parser Expr
  | 0 => exhausted
  | bound + 1 => equality (primaryWith (layeredAt bound))

/-- One expression, read by layers. -/
def layered : Parser Expr := do layeredAt (← rounds)

/-! ## Layers without bounds -/

section Fold

variable {operators : List BinaryOperator} {operand other : Parser Expr} {lhs : Expr} {bound : Nat}
  {token : Token} {rest : List Token} {endPosition : Position} {operator : BinaryOperator}

/-- No operator of the layer comes next. -/
def Input.Ends (operators : List BinaryOperator) (input : Input) : Prop :=
  ∀ operator, nextOperator? input = some operator → operator ∉ operators

variable {input : Input}

theorem foldOperators_of_ends (ends : input.Ends operators) :
    foldOperators operators operand (bound + 1) lhs input = .ok lhs input :=
  match_of_forall ends

theorem foldOperators_of_operator
    (next : nextOperator? ⟨token :: rest, endPosition⟩ = some operator)
    (takes : operator ∈ operators) :
    foldOperators operators operand (bound + 1) lhs ⟨token :: rest, endPosition⟩ = (do
      let rhs ← operand
      foldOperators operators operand bound (.binary operator lhs rhs)) ⟨rest, endPosition⟩ :=
  match_of_operator next takes

/-- Bounds that are larger than the number of tokens make no difference. -/
theorem foldOperators_congr (consumes : Takes 1 operand) {wider : Nat}
    (same : AgreeBelow input.rest.length operand other) (enough : input.rest.length < bound)
    (otherEnough : input.rest.length < wider) :
    foldOperators operators operand bound lhs input =
      foldOperators operators other wider lhs input := by
  induction bound generalizing wider input lhs with
  | zero => exact absurd enough (Nat.not_lt_zero _)
  | succ bound ih =>
    obtain ⟨_, rfl⟩ := Nat.exists_eq_succ_of_ne_zero (Nat.ne_zero_of_lt otherEnough)
    rcases forall_or_exists_operator (· ∈ operators) input with
      ends | ⟨token, tokens, operator, here, next, takes⟩
    · rw [foldOperators_of_ends ends, foldOperators_of_ends ends]
    · obtain ⟨_, _⟩ := input
      cases here
      simp only [List.length_cons] at same enough otherEnough
      rw [foldOperators_of_operator next takes, foldOperators_of_operator next takes]
      refine bind_congr_run (same _ (Nat.lt_succ_self _)) fun rhs rest ran => ?_
      have shorter : rest.rest.length ≤ tokens.length := (consumes.of_ok ran).length_le
      exact ih (same.mono (by omega)) (by omega) (by omega)

/-- Further operands behind `lhs`, as many as there are. -/
def further (operators : List BinaryOperator) (operand : Parser Expr) (lhs : Expr) :
    Parser Expr := do
  foldOperators operators operand (← rounds) lhs

theorem further_of_ends (ends : input.Ends operators) :
    further operators operand lhs input = .ok lhs input :=
  foldOperators_of_ends ends

/-- An operator of the layer is folded with the next operand, and the fold goes on. -/
theorem further_of_operator (consumes : Takes 1 operand)
    (next : nextOperator? ⟨token :: rest, endPosition⟩ = some operator)
    (takes : operator ∈ operators) :
    further operators operand lhs ⟨token :: rest, endPosition⟩ = (do
      let rhs ← operand
      further operators operand (.binary operator lhs rhs)) ⟨rest, endPosition⟩ := by
  refine (foldOperators_of_operator next takes).trans ?_
  refine bind_congr_run rfl fun rhs left ran => ?_
  exact foldOperators_congr consumes (fun _ _ => rfl)
    (Nat.lt_succ_of_le (consumes.of_ok ran).length_le) (Nat.lt_succ_self _)

theorem layer_eq (operators : List BinaryOperator) (operand : Parser Expr) :
    layer operators operand = (do
      let first ← operand
      further operators operand first) :=
  rfl

theorem Takes.foldOperators (consumes : Takes 1 operand) (bound : Nat) (lhs : Expr) :
    Takes 0 (Parser.foldOperators operators operand bound lhs) := by
  induction bound generalizing lhs with
  | zero => exact fail _
  | succ bound ih =>
    refine (look _).after fun next => ?_
    split
    · exact pure _
    · split
      · exact accept.bind fun _ => consumes.bind fun _ => ih _
      · exact pure _

theorem Takes.layer (consumes : Takes 1 operand) : Takes 1 (Parser.layer operators operand) :=
  consumes.bind fun _ => (look _).bind fun _ => consumes.foldOperators _ _

theorem AgreeBelow.layer {count : Nat} (same : AgreeBelow count operand other)
    (consumes : Takes 1 operand) :
    AgreeBelow count (Parser.layer operators operand) (Parser.layer operators other) := by
  intro input few
  refine bind_congr_run (same input few) fun first rest ran => look_congr_run ?_
  have shorter := consumes.length ran
  exact foldOperators_congr consumes (same.mono (by omega)) (Nat.lt_succ_self _)
    (Nat.lt_succ_self _)

end Fold

/-! ## Precedence and layers -/

section Climbing

variable {primary : Parser Expr} {operators : List BinaryOperator} {least : Nat}

/-- A primary expression and the operators behind it that bind at least as tight as
`least`. -/
def climbed (primary : Parser Expr) (least : Nat) : Parser Expr := do
  let lhs ← primary
  chain primary least lhs

theorem Takes.climbed (consumes : Takes 1 primary) : Takes 1 (climbed primary least) :=
  consumes.bind fun _ => (look _).bind fun _ => consumes.climb _ _ _

section

variable (consumes : Takes 1 primary)
  (isLayer : ∀ operator, operator ∈ operators ↔ operator.precedence = least)

include consumes isLayer

/-- A chain of operators is a chain of the tighter ones, with which the operators of the
loosest layer are folded. -/
theorem chain_eq_bind_further (lhs : Expr) (input : Input) : chain primary least lhs input =
      (chain primary (least + 1) lhs >>= further operators (climbed primary (least + 1)))
        input := by
  induction count : input.rest.length using Nat.strongRecOn generalizing input lhs with
  | ind count ih =>
    rcases stops_or_exists least input with stops | ⟨token, tokens, operator, here, next, takes⟩
    · have ends : input.Ends operators := fun operator found member =>
        absurd ((isLayer operator).mp member) (Nat.ne_of_lt (stops operator found))
      have tighter : input.Stops (least + 1) := fun operator found =>
        Nat.lt_succ_of_lt (stops operator found)
      rw [chain_of_stops stops, bind_of_ok (chain_of_stops tighter), further_of_ends ends]
    · obtain ⟨_, endPosition⟩ := input
      cases here
      simp only [List.length_cons] at count
      rw [chain_of_operator consumes next takes]
      have shorter {operand : Expr} {rest : Input}
          (ran : primary ⟨tokens, endPosition⟩ = .ok operand rest) :
          rest.rest.length < tokens.length := consumes.length ran
      have remains {least : Nat} {operand rhs : Expr} {rest left : Input}
          (continued : chain primary least operand rest = .ok rhs left) :
          left.rest.length ≤ rest.rest.length :=
        ((consumes.climb _ _ _).of_ok continued).length_le
      rcases Nat.eq_or_lt_of_le takes with same | tighter
      · -- The operator belongs to the layer, so the tighter chain is over.
        have stops : Input.Stops (least + 1) ⟨token :: tokens, endPosition⟩ := by
          intro other found
          cases next.symm.trans found
          omega
        rw [bind_of_ok (chain_of_stops stops),
          further_of_operator consumes.climbed next ((isLayer operator).mpr same.symm), climbed,
          bind_assoc, ← same]
        refine bind_congr_run rfl fun operand rest ran => ?_
        refine bind_congr_run rfl fun rhs left continued => ?_
        have fewer := shorter ran
        have left_le := remains continued
        rw [ih _ (by omega) _ left rfl, bind_of_ok (chain_of_stops (stops_of_climb continued))]
        rfl
      · rw [bind_congr_run (chain_of_operator consumes next tighter)
          fun _ _ _ => rfl, bind_assoc]
        refine bind_congr_run rfl fun operand rest ran => ?_
        rw [bind_assoc]
        refine bind_congr_run rfl fun rhs left continued => ?_
        have fewer := shorter ran
        have left_le := remains continued
        exact ih _ (by omega) _ left rfl

/-- A layer over the tighter operators reads its own operators as well. -/
theorem layer_climbed : layer operators (climbed primary (least + 1)) = climbed primary least := by
  rw [layer_eq, climbed, climbed, bind_assoc]
  congr 1
  funext lhs input
  exact (chain_eq_bind_further consumes isLayer lhs input).symm

end

/-- No operator binds tighter than the multiplicative ones. -/
theorem climbed_five (primary : Parser Expr) : climbed primary 5 = primary := by
  have stops (input : Input) : input.Stops 5 := by
    intro operator _
    cases operator <;> decide
  have nothing : chain primary 5 = pure := by
    funext lhs input
    exact chain_of_stops (stops input)
  rw [climbed, nothing, bind_pure]

/-- Every operator binds at least as tight as the comparisons by equality. -/
theorem climbed_zero (consumes : Takes 1 primary) :
    climbed primary 0 = climbed primary 1 := by
  have isLayer : ∀ operator : BinaryOperator, operator ∈ [] ↔ operator.precedence = 0 := by
    intro operator
    cases operator <;> decide
  have ends (input : Input) : input.Ends [] := fun _ _ => List.not_mem_nil
  have nothing : further [] (climbed primary 1) = pure := by
    funext lhs input
    exact further_of_ends (ends input)
  rw [← layer_climbed consumes isLayer, layer_eq, nothing, bind_pure]

/-- The four layers over a primary expression read it with all operators behind it. -/
theorem equality_eq_climbed (consumes : Takes 1 primary) :
    equality primary = climbed primary 0 := by
  have products : multiplicative primary = climbed primary 4 := by
    have tightest : multiplicative primary = layer [.multiply, .divide] (climbed primary 5) := by
      rw [climbed_five, multiplicative]
    rw [tightest]
    refine layer_climbed consumes fun operator => ?_
    cases operator <;> decide
  have sums : additive primary = climbed primary 3 := by
    rw [additive, products]
    refine layer_climbed consumes fun operator => ?_
    cases operator <;> decide
  have orders : relational primary = climbed primary 2 := by
    rw [relational, sums]
    refine layer_climbed consumes fun operator => ?_
    cases operator <;> decide
  rw [equality, orders, climbed_zero consumes]
  refine layer_climbed consumes fun operator => ?_
  cases operator <;> decide

end Climbing

/-! ## Runs that differ in contexts only -/

/-- Both runs give the same result and leave the same tokens, or both fail with the same
fault at the same place. -/
inductive Outcome.Matches : Outcome α → Outcome α → Prop
  | ok (result : α) (rest : Input) : Matches (.ok result rest) (.ok result rest)
  | error {first second : SyntaxError} (rest : Input) (cause : first.cause = second.cause)
      (position : first.position = second.position) :
      Matches (.error first rest) (.error second rest)

/-- All runs of the two parsers match. -/
def Matches (first second : Parser α) : Prop :=
  ∀ input, Outcome.Matches (first input) (second input)

namespace Matches

variable {first second third : Parser α}

theorem refl (parser : Parser α) : Matches parser parser := by
  intro input
  cases parser input with
  | ok result rest => exact .ok result rest
  | error error rest => exact .error rest rfl rfl

theorem trans (here : Matches first second) (there : Matches second third) :
    Matches first third := by
  intro input
  have firstMatches := here input
  have secondMatches := there input
  generalize second input = middle at firstMatches secondMatches
  generalize first input = start at firstMatches ⊢
  cases firstMatches with
  | ok => exact secondMatches
  | error rest cause position =>
    generalize third input = finish at secondMatches ⊢
    cases secondMatches with
    | error _ nextCause nextPosition =>
      exact .error rest (cause.trans nextCause) (position.trans nextPosition)

theorem bind {next other : α → Parser β} (same : Matches first second)
    (continues : ∀ result, Matches (next result) (other result)) :
    Matches (first >>= next) (second >>= other) := by
  intro input
  have matching := same input
  change Outcome.Matches (EStateM.bind first next input) (EStateM.bind second other input)
  unfold EStateM.bind
  generalize first input = start at matching ⊢
  generalize second input = finish at matching ⊢
  cases matching with
  | ok result rest => exact continues result rest
  | error rest cause position => exact .error rest cause position

theorem within (same : Matches first second) (context : String) :
    Matches (Parser.within context first) (Parser.within context second) := by
  intro input
  have matching := same input
  unfold Parser.within
  generalize first input = start at matching ⊢
  generalize second input = finish at matching ⊢
  cases matching with
  | ok result rest => exact .ok result rest
  | error rest cause position => exact .error rest cause position

/-- The name of a phrase is a context. -/
theorem of_within (context : String) (parser : Parser α) :
    Matches (Parser.within context parser) parser := by
  intro input
  unfold Parser.within
  cases parser input with
  | ok result rest => exact .ok result rest
  | error error rest => exact .error rest rfl rfl

theorem phrasesAfterCommas (same : Matches first second) :
    Matches (Parser.phrasesAfterCommas first) (Parser.phrasesAfterCommas second) := by
  refine (refl _).bind fun bound => ?_
  induction bound with
  | zero => exact refl _
  | succ bound ih =>
    refine (refl _).bind fun kind => ?_
    split
    · exact (refl _).bind fun _ => same.bind fun _ => ih.bind fun _ => refl _
    · exact refl _

theorem separatedByCommas (same : Matches first second) :
    Matches (Parser.separatedByCommas first) (Parser.separatedByCommas second) := by
  refine (refl _).bind fun kind => ?_
  split
  · exact refl _
  · exact same.bind fun _ => same.phrasesAfterCommas.bind fun _ => refl _

section Expressions

variable {nested other : Parser Expr}

variable (same : Matches nested other)

include same

theorem callWith (name : String) :
    Matches (Parser.callWith nested name) (Parser.callWith other name) :=
  ((refl _).bind fun _ => same.separatedByCommas.bind fun _ => refl _).within _

theorem primaryWith : Matches (Parser.primaryWith nested) (Parser.primaryWith other) := by
  refine ((refl _).bind fun kind => ?_).within _
  cases kind with
  | openParen => exact (refl _).bind fun _ => same.bind fun _ => refl _
  | identifier =>
    refine (refl _).bind fun name => (refl _).bind fun _ => (refl _).bind fun next => ?_
    split
    · exact same.callWith name
    · exact refl _
  | _ => exact refl _

theorem foldOperators (operators : List BinaryOperator) (bound : Nat) (lhs : Expr) :
    Matches (Parser.foldOperators operators nested bound lhs)
      (Parser.foldOperators operators other bound lhs) := by
  induction bound generalizing lhs with
  | zero => exact refl _
  | succ bound ih =>
    refine (refl _).bind fun next => ?_
    split
    · exact refl _
    · split
      · exact (refl _).bind fun _ => same.bind fun _ => ih _
      · exact refl _

theorem layer (operators : List BinaryOperator) :
    Matches (Parser.layer operators nested) (Parser.layer operators other) :=
  same.bind fun _ => (refl _).bind fun _ => same.foldOperators operators _ _

theorem equality : Matches (Parser.equality nested) (Parser.equality other) :=
  (((same.layer _).layer _).layer _).layer _

end Expressions

end Matches

/-! ## Expressions -/

/-- Without the names of phrases, an expression is a primary expression with all operators
behind it. -/
theorem matches_expressionWith (nested : Parser Expr) :
    Matches (expressionWith nested) (climbed (primaryWith nested) 0) := by
  rw [expressionWith]
  refine (Matches.of_within _ _).trans ?_
  exact (Matches.refl _).bind fun _ => Matches.of_within _ _

theorem matches_layeredAt (bound : Nat) : Matches (expressionAt bound) (layeredAt bound) := by
  induction bound with
  | zero => exact Matches.refl _
  | succ bound ih =>
    have consumes := Takes.expressionAt bound
    have sameLayers : equality (primaryWith (expressionAt bound)) =
        climbed (primaryWith (expressionAt bound)) 0 :=
      equality_eq_climbed consumes.primaryWith
    refine (matches_expressionWith _).trans ?_
    rw [← sameLayers]
    exact ih.primaryWith.equality

section Nested

variable {nested : Parser Expr}

theorem Takes.equality (consumes : Takes 1 nested) : Takes 1 (equality nested) :=
  consumes.layer.layer.layer.layer

theorem takes_layeredAt (bound : Nat) : Takes 1 (layeredAt bound) := by
  induction bound with
  | zero => exact .fail _
  | succ bound ih => exact ih.primaryWith.equality

end Nested

/-- What stands in parentheses is read by layers as well. -/
theorem layered_eq : layered = equality (primaryWith layered) := by
  have guarded : IsGuarded fun nested => equality (primaryWith nested) := by
    intro nested other input consumes same
    have operand : AgreeBelow (input.rest.length + 1) (primaryWith nested) (primaryWith other) :=
      fun left few => primaryWith_congr consumes fun shorter lt => same shorter (by omega)
    have takes : Takes 1 (primaryWith nested) := consumes.primaryWith
    exact (((operand.layer takes).layer takes.layer).layer takes.layer.layer).layer
      takes.layer.layer.layer input (Nat.lt_succ_self _)
  exact eq_of_isGuarded guarded takes_layeredAt fun _ => rfl

/-- Reading by precedence is reading by layers.  Layers read by themselves what stands in
parentheses, and on every input both readings give the same tree and leave the same tokens,
or both fail with the same fault at the same place. -/
theorem matches_layered :
    layered = equality (primaryWith layered) ∧ Matches expression layered :=
  ⟨layered_eq, (Matches.refl _).bind matches_layeredAt⟩

end BanglaScript.Parser
