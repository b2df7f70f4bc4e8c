import BanglaScript.Tree

/-!
# The record form of trees

The record form writes a whole tree on one line: constructors with their
arguments in parentheses or their named fields in braces, lists in brackets.
The statements of a nested block are fields named by their index.
-/

namespace BanglaScript

namespace Record

/-- A constructor applied to one argument. -/
def apply (name argument : String) : String := name ++ "(" ++ argument ++ ")"

/-- A constructor with named fields; the braces go with the last field. -/
def fields (name : String) : List (String × String) → String
  | [] => name
  | entries =>
    name ++ " \x7b " ++ Text.join ", " (entries.map fun entry => entry.1 ++ ": " ++ entry.2) ++
      " \x7d"

/-- A list. -/
def list (texts : List String) : String := "[" ++ Text.join ", " texts ++ "]"

/-- A block, with its statements numbered from zero. -/
def block (statements : List String) : String :=
  fields "Block" (statements.zipIdx.map fun entry => (toString entry.2, entry.1))

end Record

/-- The record form of a constant. -/
def Literal.record : Literal → String
  | .number value => Record.apply "Number" value.recordText
  | .string contents => Record.apply "String" (Text.escaped contents)

mutual

/-- The record form of an expression. -/
def Expr.record : Expr → String
  | .binary operator lhs rhs =>
    Record.fields "Binary"
      [("operator", operator.label), ("lhs", lhs.record), ("rhs", rhs.record)]
  | .identifier name => Record.apply "Identifier" (Text.escaped name)
  | .literal constant => Record.apply "Literal" constant.record
  | .call name arguments =>
    Record.fields "Call"
      [("name", Text.escaped name), ("args", Record.list (Expr.recordAll arguments))]

/-- The record forms of several expressions. -/
def Expr.recordAll : List Expr → List String
  | [] => []
  | expr :: rest => expr.record :: Expr.recordAll rest

end

/-- The record form of an expression that may be missing. -/
def Expr.recordOption : Option Expr → String
  | none => "None"
  | some expr => Record.apply "Some" expr.record

mutual

/-- The record form of a statement. -/
def Statement.record : Statement → String
  | .declaration name initial =>
    Record.fields "VariableDeclaration"
      [("name", Text.escaped name), ("init", Expr.recordOption initial)]
  | .assignment name value =>
    Record.fields "Assignment" [("name", Text.escaped name), ("value", value.record)]
  | .ifThen condition body =>
    Record.fields "If"
      [("condition", condition.record), ("then", Record.block (Statement.recordAll body)),
        ("otherwise", "None")]
  | .ifElse condition body alternative =>
    Record.fields "If"
      [("condition", condition.record), ("then", Record.block (Statement.recordAll body)),
        ("otherwise",
          Record.apply "Some" (Record.block (Statement.recordAll alternative)))]
  | .repeatWhile condition body =>
    Record.fields "While"
      [("condition", condition.record), ("body", Record.block (Statement.recordAll body))]
  | .block body => Record.apply "Block" (Record.block (Statement.recordAll body))
  | .function name parameters body =>
    Record.apply "FunctionDeclaration"
      (Record.fields "Function"
        [("name", Text.escaped name), ("params", Record.list (parameters.map Text.escaped)),
          ("body", Record.block (Statement.recordAll body))])
  | .giveBack value => Record.apply "Return" (Expr.recordOption value)
  | .print value => Record.apply "Print" value.record
  | .expression value => Record.apply "Expression" value.record

/-- The record forms of several statements. -/
def Statement.recordAll : List Statement → List String
  | [] => []
  | statement :: rest => statement.record :: Statement.recordAll rest

end

/-- The record form of a program. -/
def Program.record (program : Program) : String :=
  Record.apply "Program" (Record.list (Statement.recordAll program.body))

end BanglaScript
