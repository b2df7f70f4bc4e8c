import BanglaScript.Proofs.Machine

/-!
# Running programs

A program without functions is run on its tree.  Variables live in a stack of
scopes, one for every block that is open.  A declaration binds its name in the
innermost scope, once its initial value is known; an assignment changes the
innermost binding of its name; the bindings of a block end with the block.
Expressions are evaluated from left to right.
-/

namespace BanglaScript

/-- The values of variables, from the innermost scope outwards and in each
scope the latest declaration first. -/
abbrev Scopes (Value : Type) := List (List (String × Value))

namespace Scopes

variable {Value : Type}

/-- The value of the innermost variable of a name. -/
def find? (scopes : Scopes Value) (name : String) : Option Value :=
  scopes.findSome? fun scope => scope.lookup name

/-- Bind a name in the innermost scope. -/
def bind (scopes : Scopes Value) (name : String) (value : Value) : Scopes Value :=
  match scopes with
  | [] => []
  | scope :: outer => ((name, value) :: scope) :: outer

/-- Change the latest binding of a name in a scope. -/
def assignIn (name : String) (value : Value) : List (String × Value) → List (String × Value)
  | [] => []
  | entry :: rest =>
    if entry.1 = name then (name, value) :: rest else entry :: assignIn name value rest

/-- Change the innermost binding of a name.  There is none if the name is not
bound. -/
def assign? (name : String) (value : Value) : Scopes Value → Option (Scopes Value)
  | [] => none
  | scope :: outer =>
    if (scope.lookup name).isSome then some (assignIn name value scope :: outer)
    else (assign? name value outer).map (scope :: ·)

variable {Other : Type}

/-- The scopes with every value replaced. -/
def mapValues (replace : Value → Other) (scopes : Scopes Value) : Scopes Other :=
  scopes.map fun scope => scope.map fun entry => (entry.1, replace entry.2)

theorem lookup_map (replace : Value → Other) (scope : List (String × Value)) (name : String) :
    (scope.map fun entry => (entry.1, replace entry.2)).lookup name =
      (scope.lookup name).map replace := by
  induction scope with
  | nil => rfl
  | cons entry rest ih =>
    obtain ⟨_, _⟩ := entry
    simp only [List.map_cons, List.lookup_cons]
    split
    · rfl
    · exact ih

theorem find?_mapValues (replace : Value → Other) (scopes : Scopes Value) (name : String) :
    (scopes.mapValues replace).find? name = (scopes.find? name).map replace := by
  unfold mapValues find?
  induction scopes with
  | nil => rfl
  | cons scope outer ih =>
    simp only [List.map_cons, List.findSome?_cons, lookup_map]
    cases scope.lookup name with
    | none => exact ih
    | some => rfl

end Scopes

variable {Value : Type} (meaning : Meaning Value)

/-- The value of a literal. -/
def Meaning.ofLiteral : Literal → Value
  | .number value => meaning.number value
  | .string contents => meaning.string contents

/-- The value of an expression.  A name that is not bound has none, and calls
have none here. -/
def Expr.value? (scopes : Scopes Value) : Expr → Option Value
  | .literal constant => some (meaning.ofLiteral constant)
  | .identifier name =>
    if name = "true" then some (meaning.boolean true)
    else if name = "false" then some (meaning.boolean false)
    else scopes.find? name
  | .binary operator lhs rhs => do
    let left ← lhs.value? scopes
    let right ← rhs.value? scopes
    return meaning.apply operator left right
  | .call _ _ => none

/-- Statements that are run one after the other, the scopes before, what they
print and the scopes behind them. -/
inductive Runs : List Statement → Scopes Value → List Value → Scopes Value → Prop
  | done {scopes : Scopes Value} : Runs [] scopes [] scopes
  | declare {name : String} {initial : Expr} {rest : List Statement} {value : Value}
      {scopes final : Scopes Value} {output : List Value}
      (evaluated : initial.value? meaning scopes = some value)
      (next : Runs rest (scopes.bind name value) output final) :
      Runs (.declaration name (some initial) :: rest) scopes output final
  | declareOnly {name : String} {rest : List Statement} {scopes final : Scopes Value}
      {output : List Value} (next : Runs rest (scopes.bind name meaning.undefined) output final) :
      Runs (.declaration name none :: rest) scopes output final
  | assign {name : String} {expr : Expr} {rest : List Statement} {value : Value}
      {scopes changed final : Scopes Value} {output : List Value}
      (evaluated : expr.value? meaning scopes = some value)
      (assigned : scopes.assign? name value = some changed)
      (next : Runs rest changed output final) :
      Runs (.assignment name expr :: rest) scopes output final
  | thenTrue {condition : Expr} {body rest : List Statement} {value : Value}
      {scopes inner final : Scopes Value} {first second : List Value}
      (evaluated : condition.value? meaning scopes = some value)
      (test : meaning.isTrue value = true)
      (inside : Runs body ([] :: scopes) first inner) (next : Runs rest inner.tail second final) :
      Runs (.ifThen condition body :: rest) scopes (first ++ second) final
  | thenFalse {condition : Expr} {body rest : List Statement} {value : Value}
      {scopes final : Scopes Value} {output : List Value}
      (evaluated : condition.value? meaning scopes = some value)
      (test : meaning.isTrue value = false) (next : Runs rest scopes output final) :
      Runs (.ifThen condition body :: rest) scopes output final
  | elseTrue {condition : Expr} {body alternative rest : List Statement} {value : Value}
      {scopes inner final : Scopes Value} {first second : List Value}
      (evaluated : condition.value? meaning scopes = some value)
      (test : meaning.isTrue value = true)
      (inside : Runs body ([] :: scopes) first inner) (next : Runs rest inner.tail second final) :
      Runs (.ifElse condition body alternative :: rest) scopes (first ++ second) final
  | elseFalse {condition : Expr} {body alternative rest : List Statement} {value : Value}
      {scopes inner final : Scopes Value} {first second : List Value}
      (evaluated : condition.value? meaning scopes = some value)
      (test : meaning.isTrue value = false)
      (inside : Runs alternative ([] :: scopes) first inner)
      (next : Runs rest inner.tail second final) :
      Runs (.ifElse condition body alternative :: rest) scopes (first ++ second) final
  | loopTrue {condition : Expr} {body rest : List Statement} {value : Value}
      {scopes inner final : Scopes Value} {first second : List Value}
      (evaluated : condition.value? meaning scopes = some value)
      (test : meaning.isTrue value = true)
      (inside : Runs body ([] :: scopes) first inner)
      (again : Runs (.repeatWhile condition body :: rest) inner.tail second final) :
      Runs (.repeatWhile condition body :: rest) scopes (first ++ second) final
  | loopFalse {condition : Expr} {body rest : List Statement} {value : Value}
      {scopes final : Scopes Value} {output : List Value}
      (evaluated : condition.value? meaning scopes = some value)
      (test : meaning.isTrue value = false) (next : Runs rest scopes output final) :
      Runs (.repeatWhile condition body :: rest) scopes output final
  | block {body rest : List Statement} {scopes inner final : Scopes Value}
      {first second : List Value} (inside : Runs body ([] :: scopes) first inner)
      (next : Runs rest inner.tail second final) :
      Runs (.block body :: rest) scopes (first ++ second) final
  | print {expr : Expr} {rest : List Statement} {value : Value} {scopes final : Scopes Value}
      {output : List Value} (evaluated : expr.value? meaning scopes = some value)
      (next : Runs rest scopes output final) :
      Runs (.print expr :: rest) scopes (value :: output) final
  | expression {expr : Expr} {rest : List Statement} {value : Value}
      {scopes final : Scopes Value} {output : List Value}
      (evaluated : expr.value? meaning scopes = some value)
      (next : Runs rest scopes output final) :
      Runs (.expression expr :: rest) scopes output final

/-- The program runs to its end and prints the output. -/
def Program.Prints (program : Program) (output : List Value) : Prop :=
  ∃ final, Runs meaning program.body [[]] output final

/-! ## Conditions on every phrase of a program -/

mutual

/-- A condition on the expression and every expression in it. -/
def Expr.all (condition : Expr → Bool) : Expr → Bool
  | .binary operator lhs rhs =>
    condition (.binary operator lhs rhs) && Expr.all condition lhs && Expr.all condition rhs
  | .identifier name => condition (.identifier name)
  | .literal constant => condition (.literal constant)
  | .call name arguments => condition (.call name arguments) && Expr.allIn condition arguments

/-- The condition on several expressions. -/
def Expr.allIn (condition : Expr → Bool) : List Expr → Bool
  | [] => true
  | first :: rest => Expr.all condition first && Expr.allIn condition rest

end

mutual

/-- Conditions on the statement, every statement in it and every expression of
these. -/
def Statement.all (onStatement : Statement → Bool) (onExpr : Expr → Bool) : Statement → Bool
  | .declaration name initial =>
    onStatement (.declaration name initial) && initial.all (Expr.all onExpr)
  | .assignment name value => onStatement (.assignment name value) && value.all onExpr
  | .ifThen condition body =>
    onStatement (.ifThen condition body) && condition.all onExpr &&
      Statement.allIn onStatement onExpr body
  | .ifElse condition body alternative =>
    onStatement (.ifElse condition body alternative) && condition.all onExpr &&
      Statement.allIn onStatement onExpr body && Statement.allIn onStatement onExpr alternative
  | .repeatWhile condition body =>
    onStatement (.repeatWhile condition body) && condition.all onExpr &&
      Statement.allIn onStatement onExpr body
  | .block body => onStatement (.block body) && Statement.allIn onStatement onExpr body
  | .function name parameters body =>
    onStatement (.function name parameters body) && Statement.allIn onStatement onExpr body
  | .giveBack value => onStatement (.giveBack value) && value.all (Expr.all onExpr)
  | .print value => onStatement (.print value) && value.all onExpr
  | .expression value => onStatement (.expression value) && value.all onExpr

/-- The conditions on several statements. -/
def Statement.allIn (onStatement : Statement → Bool) (onExpr : Expr → Bool) :
    List Statement → Bool
  | [] => true
  | first :: rest =>
    Statement.all onStatement onExpr first && Statement.allIn onStatement onExpr rest

end

variable {ι : Type} {conditions : ι → Statement → Bool} {exprConditions : ι → Expr → Bool}
  {onStatement : Statement → Bool} {onExpr : Expr → Bool}

mutual

theorem Expr.all_of_forall (onExprs : ∀ expr, (∀ i, exprConditions i expr) → onExpr expr)
    (expr : Expr) (holds : ∀ i, expr.all (exprConditions i)) : expr.all onExpr := by
  cases expr with
  | binary operator lhs rhs =>
    simp only [Expr.all, Bool.and_eq_true, forall_and] at holds ⊢
    exact ⟨⟨onExprs _ holds.1.1, lhs.all_of_forall onExprs holds.1.2⟩,
      rhs.all_of_forall onExprs holds.2⟩
  | call name arguments =>
    simp only [Expr.all, Bool.and_eq_true, forall_and] at holds ⊢
    exact ⟨onExprs _ holds.1, Expr.allIn_of_forall onExprs arguments holds.2⟩
  | identifier | literal => exact onExprs _ holds

theorem Expr.allIn_of_forall (onExprs : ∀ expr, (∀ i, exprConditions i expr) → onExpr expr)
    (exprs : List Expr) (holds : ∀ i, Expr.allIn (exprConditions i) exprs) :
    Expr.allIn onExpr exprs := by
  cases exprs with
  | nil => rfl
  | cons first rest =>
    simp only [Expr.allIn, Bool.and_eq_true, forall_and] at holds ⊢
    exact ⟨first.all_of_forall onExprs holds.1, Expr.allIn_of_forall onExprs rest holds.2⟩

end

mutual

theorem Statement.all_of_forall (onExprs : ∀ expr, (∀ i, exprConditions i expr) → onExpr expr)
    (onPhrases : ∀ phrase, (∀ i, conditions i phrase) → onStatement phrase)
    (phrase : Statement)
    (holds : ∀ i, phrase.all (conditions i) (exprConditions i)) :
    phrase.all onStatement onExpr := by
  have maybe {value : Option Expr} (given : ∀ i, value.all (Expr.all (exprConditions i))) :
      value.all (Expr.all onExpr) := by
    cases value with
    | none => rfl
    | some value => exact value.all_of_forall onExprs given
  cases phrase <;> simp only [Statement.all, Bool.and_eq_true, forall_and] at holds ⊢
  case declaration | giveBack => exact ⟨onPhrases _ holds.1, maybe holds.2⟩
  case assignment value | print value | expression value =>
    exact ⟨onPhrases _ holds.1, value.all_of_forall onExprs holds.2⟩
  case block body | function body =>
    exact ⟨onPhrases _ holds.1, Statement.allIn_of_forall onExprs onPhrases body holds.2⟩
  case ifThen condition body | repeatWhile condition body =>
    exact ⟨⟨onPhrases _ holds.1.1, condition.all_of_forall onExprs holds.1.2⟩,
      Statement.allIn_of_forall onExprs onPhrases body holds.2⟩
  case ifElse condition body alternative =>
    exact ⟨⟨⟨onPhrases _ holds.1.1.1, condition.all_of_forall onExprs holds.1.1.2⟩,
      Statement.allIn_of_forall onExprs onPhrases body holds.1.2⟩,
      Statement.allIn_of_forall onExprs onPhrases alternative holds.2⟩

/-- What follows from some conditions holds of all statements and expressions if the
conditions do. -/
theorem Statement.allIn_of_forall (onExprs : ∀ expr, (∀ i, exprConditions i expr) → onExpr expr)
    (onPhrases : ∀ phrase, (∀ i, conditions i phrase) → onStatement phrase)
    (phrases : List Statement)
    (holds : ∀ i, Statement.allIn (conditions i) (exprConditions i) phrases) :
    Statement.allIn onStatement onExpr phrases := by
  cases phrases with
  | nil => rfl
  | cons first rest =>
    simp only [Statement.allIn, Bool.and_eq_true, forall_and] at holds ⊢
    exact ⟨first.all_of_forall onExprs onPhrases holds.1,
      Statement.allIn_of_forall onExprs onPhrases rest holds.2⟩

end

end BanglaScript
