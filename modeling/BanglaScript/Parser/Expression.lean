import BanglaScript.Parser
import BanglaScript.Tree

/-!
# Parsing expressions

An expression is a primary expression followed by operators and further
primary expressions.  The tree is built by precedence climbing: an operator
takes as its right operand everything that binds tighter than itself.
-/

namespace BanglaScript.Parser

/-- The operator denoted by the next token, if it denotes one. -/
def nextOperator? (input : Input) : Option BinaryOperator :=
  match input.kind with
  | .sign sign => BinaryOperator.ofSign? sign
  | _ => none

/-- A text without the double quotes at its two ends. -/
def trimQuotes (text : String) : String :=
  let head := text.toList.dropWhile (· = '"')
  String.ofList ((head.reverse.dropWhile (· = '"')).reverse)

/-- The arguments of a call, in parentheses. -/
def callWith (nested : Parser Expr) (name : String) : Parser Expr :=
  within "parsing function call" do
    consume .openParen
    let arguments ← separatedByCommas nested
    consume .closeParen
    pure (.call name arguments)

/-- A literal, a name, a call, or an expression in parentheses.  The parser
`nested` reads the expressions inside parentheses. -/
def primaryWith (nested : Parser Expr) : Parser Expr :=
  within "parsing primary expression" do
    match ← expectAny (some (.description "expression")) with
    | .openParen =>
      accept
      let inner ← nested
      within "as the end of the expression" (consume .closeParen)
      pure inner
    | .number =>
      match ← look Input.value with
      | some (.number value) =>
        accept
        pure (.literal (.number value))
      | _ => fail (.expected (.description "number with a value") .number)
    | .string =>
      let contents ← look fun input =>
        match input.value with
        | some (.contents contents) => contents
        | _ => trimQuotes input.text
      accept
      pure (.literal (.string contents))
    | .identifier =>
      let name ← look Input.text
      accept
      if (← look Input.kind) = .openParen then callWith nested name
      else pure (.identifier name)
    | found =>
      fail (.expected (.description "number, string, identifier or '('") found)

mutual

/-- Extend `lhs` by the operators that bind at least as tight as `least`. -/
def climb (primary : Parser Expr) : Nat → Nat → Expr → Parser Expr
  | 0, _, _ => exhausted
  | bound + 1, least, lhs => do
    match ← look nextOperator? with
    | none => pure lhs
    | some operator =>
      if least ≤ operator.precedence then
        accept
        let operand ← primary
        let rhs ← tighten primary bound operator.precedence operand
        climb primary bound least (.binary operator lhs rhs)
      else
        pure lhs

/-- Extend `rhs` as long as an operator binds tighter than `level`. -/
def tighten (primary : Parser Expr) : Nat → Nat → Expr → Parser Expr
  | 0, _, _ => exhausted
  | bound + 1, level, rhs => do
    match ← look nextOperator? with
    | none => pure rhs
    | some operator =>
      if level < operator.precedence then
        let extended ← climb primary bound (level + 1) rhs
        tighten primary bound level extended
      else
        pure rhs

end

/-- A chain of operators that bind at least as tight as `least`. -/
def chain (primary : Parser Expr) (least : Nat) (lhs : Expr) : Parser Expr := do
  climb primary (← rounds) least lhs

/-- One expression, whose nested expressions are read by `nested`. -/
def expressionWith (nested : Parser Expr) : Parser Expr :=
  within "parsing expression" do
    let lhs ← primaryWith nested
    within "parsing binary expression" (chain (primaryWith nested) 0 lhs)

/-- One expression with fewer levels of parentheses than the bound. -/
def expressionAt : Nat → Parser Expr
  | 0 => exhausted
  | bound + 1 => expressionWith (expressionAt bound)

/-- One expression. -/
def expression : Parser Expr := do expressionAt (← rounds)

end BanglaScript.Parser
