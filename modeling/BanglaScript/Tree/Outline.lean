import BanglaScript.Tree

/-!
# Outlines of trees

The outline of a program has one row for every node, indented by its depth,
and rows that title the parts of conditionals, loops and functions.
-/

namespace BanglaScript

/-- One row of an outline. -/
structure OutlineRow where
  depth : Nat
  text : String
deriving DecidableEq

namespace OutlineRow

/-- The row as a line of text, two blanks for each level. -/
def render (row : OutlineRow) : String :=
  String.ofList (List.replicate (2 * row.depth) ' ') ++ row.text ++ "\n"

end OutlineRow

/-- The text of a row, with what stands below it. -/
inductive Outline where
  | node (text : String) (parts : List Outline)

mutual

/-- The rows of an outline. -/
def Outline.rows (depth : Nat) : Outline → List OutlineRow
  | .node text parts => ⟨depth, text⟩ :: Outline.rowsAll (depth + 1) parts

/-- The rows of several outlines. -/
def Outline.rowsAll (depth : Nat) : List Outline → List OutlineRow
  | [] => []
  | outline :: rest => outline.rows depth ++ Outline.rowsAll depth rest

end

/-- A constant as it stands in an outline. -/
def Literal.render : Literal → String
  | .number value => value.plainText
  | .string contents => Text.escaped contents

mutual

/-- The outline of an expression. -/
def Expr.outline : Expr → Outline
  | .binary operator lhs rhs =>
    .node ("BinaryExpression " ++ operator.symbol) [lhs.outline, rhs.outline]
  | .identifier name => .node ("Identifier " ++ name) []
  | .literal constant => .node ("Literal " ++ constant.render) []
  | .call name arguments => .node ("FunctionCall " ++ name) (Expr.outlineAll arguments)

/-- The outlines of several expressions. -/
def Expr.outlineAll : List Expr → List Outline
  | [] => []
  | expr :: rest => expr.outline :: Expr.outlineAll rest

end

mutual

/-- The outline of a statement. -/
def Statement.outline : Statement → Outline
  | .declaration name initial =>
    .node ("VariableDeclaration " ++ name) (Expr.outlineAll initial.toList)
  | .assignment name value => .node ("Assignment " ++ name) [value.outline]
  | .ifThen condition body =>
    .node "IfStatement" [.node "Condition:" [condition.outline],
      .node "Then:" [.node "BlockStatement" (Statement.outlineAll body)]]
  | .ifElse condition body alternative =>
    .node "IfStatement" [.node "Condition:" [condition.outline],
      .node "Then:" [.node "BlockStatement" (Statement.outlineAll body)],
      .node "Else:" [.node "BlockStatement" (Statement.outlineAll alternative)]]
  | .repeatWhile condition body =>
    .node "WhileStatement" [.node "Condition:" [condition.outline],
      .node "Body:" [.node "BlockStatement" (Statement.outlineAll body)]]
  | .block body => .node "BlockStatement" (Statement.outlineAll body)
  | .function name parameters body =>
    .node ("FunctionDeclaration " ++ name)
      [.node ("Parameters: " ++ Text.join ", " parameters) [],
        .node "BlockStatement" (Statement.outlineAll body)]
  | .giveBack value => .node "ReturnStatement" (Expr.outlineAll value.toList)
  | .print value => .node "PrintStatement" [value.outline]
  | .expression value => value.outline

/-- The outlines of several statements. -/
def Statement.outlineAll : List Statement → List Outline
  | [] => []
  | statement :: rest => statement.outline :: Statement.outlineAll rest

end

namespace Program

/-- The outline of a program. -/
def outline (program : Program) : Outline := .node "Program" (Statement.outlineAll program.body)

/-- The outline as a text. -/
def render (program : Program) : String :=
  String.join ((program.outline.rows 0).map OutlineRow.render)

end Program

end BanglaScript
