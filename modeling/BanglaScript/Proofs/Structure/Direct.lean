import BanglaScript.Instruction.Lowering
import BanglaScript.Node

/-!
# Nodes of a program

A program can be translated to structured code directly, by recursion on its
tree and without labels: a conditional becomes a conditional, a loop a loop
that computes its condition before every test, a function a function, a call a
call with the operands of its arguments and the temporary of its result.  A
block becomes the nodes of its statements.  Temporaries and names are handed
out as in lowering.
-/

namespace BanglaScript.Node.Direct

/-- The assignment of a value.  A variable is not assigned to itself. -/
def assign (target : Place) (value : Operand) : List Node :=
  if value.readsPlace target then [] else [.simple (.assign target value)]

mutual

/-- The nodes of an expression and the operand that holds its value. -/
def expression : Expr → Lower (List Node × Operand)
  | .literal (.number value) => pure ([], .number value)
  | .literal (.string contents) => pure ([], .string contents)
  | .identifier name => do return ([], .variable (← Lower.resolve name))
  | .binary operator lhs rhs => do
    let (lhsNodes, lhsValue) ← expression lhs
    let (rhsNodes, rhsValue) ← expression rhs
    let target ← Lower.temporary
    return (lhsNodes ++ rhsNodes ++
      [.simple (.binary (Opcode.ofOperator operator) target lhsValue rhsValue)],
      .temporary target)
  | .call name arguments => do
    let (nodes, values) ← expressions arguments
    let target ← Lower.temporary
    return (nodes ++ [.call name values (some target)], .temporary target)

/-- The nodes of several expressions and the operands that hold their values. -/
def expressions : List Expr → Lower (List Node × List Operand)
  | [] => pure ([], [])
  | first :: rest => do
    let (firstNodes, firstValue) ← expression first
    let (restNodes, restValues) ← expressions rest
    return (firstNodes ++ restNodes, firstValue :: restValues)

end

mutual

/-- The nodes of a statement. -/
def statement : Statement → Lower (List Node)
  | .declaration name none => do
    let _ ← Lower.declare name
    return []
  | .declaration name (some initial) => do
    let (nodes, value) ← expression initial
    let target ← Lower.declare name
    return nodes ++ assign (.variable target) value
  | .assignment name value => do
    let (nodes, value) ← expression value
    let target ← Lower.resolve name
    return nodes ++ assign (.variable target) value
  | .ifThen condition body => do
    let (nodes, value) ← expression condition
    let bodyNodes ← Lower.inScope (statements body)
    return nodes ++ [.ifThen value bodyNodes]
  | .ifElse condition body alternative => do
    let (nodes, value) ← expression condition
    let bodyNodes ← Lower.inScope (statements body)
    let elseNodes ← Lower.inScope (statements alternative)
    return nodes ++ [.ifElse value bodyNodes elseNodes]
  | .repeatWhile condition body => do
    let (before, value) ← expression condition
    let bodyNodes ← Lower.inScope (statements body)
    return [.loop before value bodyNodes]
  | .block body => Lower.inScope (statements body)
  | .function name parameters body => do
    modify fun naming => naming.openFunction parameters
    let bodyNodes ← Lower.inScope (statements body)
    modify Naming.closeFunction
    return [.function name parameters.length bodyNodes]
  | .giveBack none => return [.simple (.giveBack none)]
  | .giveBack (some value) => do
    let (nodes, value) ← expression value
    return nodes ++ [.simple (.giveBack (some value))]
  | .print value => do
    let (nodes, value) ← expression value
    return nodes ++ [.simple (.print value)]
  | .expression value => do
    let (nodes, _) ← expression value
    return nodes

/-- The nodes of statements one after the other. -/
def statements : List Statement → Lower (List Node)
  | [] => return []
  | first :: rest => do
    let firstNodes ← statement first
    let restNodes ← statements rest
    return firstNodes ++ restNodes

end

end BanglaScript.Node.Direct

namespace BanglaScript

/-- The nodes of a program. -/
def Program.toNodes (program : Program) : List Node :=
  ((Node.Direct.statements program.body).run (Naming.openScope {})).1

end BanglaScript
