import BanglaScript.Token

/-!
# Programs as trees

A program is a list of statements.  Statements hold expressions and nested
lists of statements; names are kept as they are spelled in the source.
-/

namespace BanglaScript

/-- The operators between two operands. -/
inductive BinaryOperator where
  | add
  | subtract
  | multiply
  | divide
  | equal
  | notEqual
  | less
  | greater
  | lessEqual
  | greaterEqual
deriving DecidableEq

namespace BinaryOperator

/-- The operator that a sign denotes.  The assignment sign denotes none. -/
def ofSign? : Sign → Option BinaryOperator
  | .plus => some add
  | .minus => some subtract
  | .star => some multiply
  | .slash => some divide
  | .equal => some equal
  | .notEqual => some notEqual
  | .less => some less
  | .greater => some greater
  | .lessEqual => some lessEqual
  | .greaterEqual => some greaterEqual
  | .assign => none

/-- How tightly the operator binds; a larger number binds tighter.  Operators
of one level associate to the left. -/
def precedence : BinaryOperator → Nat
  | equal | notEqual => 1
  | less | greater | lessEqual | greaterEqual => 2
  | add | subtract => 3
  | multiply | divide => 4

/-- The operator computes a number, or joins texts. -/
def isArithmetic : BinaryOperator → Bool
  | add | subtract | multiply | divide => true
  | _ => false

/-- The operator as it is written. -/
def symbol : BinaryOperator → String
  | add => "+"
  | subtract => "-"
  | multiply => "*"
  | divide => "/"
  | equal => "=="
  | notEqual => "!="
  | less => "<"
  | greater => ">"
  | lessEqual => "<="
  | greaterEqual => ">="

/-- The name of the operator in the record form of a tree. -/
def label : BinaryOperator → String
  | add => "Add"
  | subtract => "Subtract"
  | multiply => "Multiply"
  | divide => "Divide"
  | equal => "Equals"
  | notEqual => "NotEquals"
  | less => "Less"
  | greater => "Greater"
  | lessEqual => "LessEqual"
  | greaterEqual => "GreaterEqual"

end BinaryOperator

/-- A constant of the source text. -/
inductive Literal where
  | number (value : Number)
  | string (contents : String)
deriving DecidableEq

/-- A phrase with a value. -/
inductive Expr where
  | binary (operator : BinaryOperator) (lhs rhs : Expr)
  | identifier (name : String)
  | literal (constant : Literal)
  | call (name : String) (arguments : List Expr)

/-- A phrase with an effect. -/
inductive Statement where
  | declaration (name : String) (initial : Option Expr)
  | assignment (name : String) (value : Expr)
  | ifThen (condition : Expr) (body : List Statement)
  | ifElse (condition : Expr) (body alternative : List Statement)
  | repeatWhile (condition : Expr) (body : List Statement)
  | block (body : List Statement)
  | function (name : String) (parameters : List String) (body : List Statement)
  | giveBack (value : Option Expr)
  | print (value : Expr)
  | expression (value : Expr)

/-- A whole program. -/
structure Program where
  body : List Statement

/-! ## Number of nodes

Every statement, block and expression is one node.  A block that stands as a
statement is one node, not two, and so is an expression. -/

mutual

/-- The nodes of an expression. -/
def Expr.size : Expr → Nat
  | .binary _ lhs rhs => 1 + (lhs.size + rhs.size)
  | .identifier _ => 1
  | .literal _ => 1
  | .call _ arguments => 1 + Expr.sizeAll arguments

/-- The nodes of several expressions. -/
def Expr.sizeAll : List Expr → Nat
  | [] => 0
  | expr :: rest => expr.size + Expr.sizeAll rest

end

mutual

/-- The nodes of a statement. -/
def Statement.size : Statement → Nat
  | .declaration _ none => 1
  | .declaration _ (some initial) => 1 + initial.size
  | .assignment _ value => 1 + value.size
  | .ifThen condition body => 1 + (condition.size + (1 + Statement.sizeAll body))
  | .ifElse condition body alternative =>
    1 + (condition.size + (1 + Statement.sizeAll body) +
      (1 + Statement.sizeAll alternative))
  | .repeatWhile condition body => 1 + (condition.size + (1 + Statement.sizeAll body))
  | .block body => 1 + Statement.sizeAll body
  | .function _ _ body => 1 + (1 + Statement.sizeAll body)
  | .giveBack none => 1
  | .giveBack (some value) => 1 + value.size
  | .print value => 1 + value.size
  | .expression value => value.size

/-- The nodes of several statements. -/
def Statement.sizeAll : List Statement → Nat
  | [] => 0
  | statement :: rest => statement.size + Statement.sizeAll rest

end

/-- The nodes of a program, the program itself included. -/
def Program.size (program : Program) : Nat :=
  1 + Statement.sizeAll program.body

end BanglaScript
