import BanglaScript.Instruction.Naming

/-!
# Lowering trees to instructions

An expression is lowered to the instructions that compute it and the operand
that then holds its value; operands are computed from left to right.  A
statement is lowered to instructions.  Blocks leave no trace besides the names
of the variables they declare.
-/

namespace BanglaScript

/-- A computation that hands out names. -/
abbrev Lower (α : Type) := StateM Naming α

namespace Lower

/-- The next temporary. -/
def temporary : Lower Nat := modifyGet Naming.freshTemporary

/-- The next label. -/
def label : Lower Nat := modifyGet Naming.freshLabel

/-- The name of a variable in the lowered program. -/
def resolve (name : String) : Lower String := do
  return (← get).resolve name

/-- Declare a variable and give its name in the lowered program. -/
def declare (name : String) : Lower String := modifyGet fun naming => naming.declare name

/-- The assignment of a value.  A variable is not assigned to itself. -/
def assign (target : Place) (value : Operand) : List Instruction :=
  if value.readsPlace target then [] else [.assign target value]

mutual

/-- The instructions of an expression and the operand that holds its value. -/
def expression : Expr → Lower (List Instruction × Operand)
  | .literal (.number value) => pure ([], .number value)
  | .literal (.string contents) => pure ([], .string contents)
  | .identifier name => do return ([], .variable (← resolve name))
  | .binary operator lhs rhs => do
    let (lhsCode, lhsValue) ← expression lhs
    let (rhsCode, rhsValue) ← expression rhs
    let target ← temporary
    return (lhsCode ++ rhsCode ++
      [.binary (Opcode.ofOperator operator) target lhsValue rhsValue], .temporary target)
  | .call name arguments => do
    let (code, values) ← expressions arguments
    let target ← temporary
    return (code ++ values.map Instruction.push ++ [.call name values.length, .pop target],
      .temporary target)

/-- The instructions of several expressions and the operands that hold their
values. -/
def expressions : List Expr → Lower (List Instruction × List Operand)
  | [] => pure ([], [])
  | first :: rest => do
    let (firstCode, firstValue) ← expression first
    let (restCode, restValues) ← expressions rest
    return (firstCode ++ restCode, firstValue :: restValues)

end

/-- What is lowered inside has a scope of its own. -/
def inScope {α : Type} (inside : Lower α) : Lower α := do
  modify Naming.openScope
  let result ← inside
  modify Naming.closeScope
  return result

mutual

/-- The instructions of a statement. -/
def statement : Statement → Lower (List Instruction)
  | .declaration name none => do
    let _ ← declare name
    return []
  | .declaration name (some initial) => do
    -- The initial value still sees the variable that the name hides.
    let (code, value) ← expression initial
    let target ← declare name
    return code ++ assign (.variable target) value
  | .assignment name value => do
    let (code, value) ← expression value
    let target ← resolve name
    return code ++ assign (.variable target) value
  | .ifThen condition body => do
    let (code, value) ← expression condition
    let bodyLabel ← label
    let endLabel ← label
    let bodyCode ← inScope (statements body)
    return code ++ [.branch value bodyLabel endLabel, .label bodyLabel] ++ bodyCode ++
      [.label endLabel]
  | .ifElse condition body alternative => do
    let (code, value) ← expression condition
    let bodyLabel ← label
    let endLabel ← label
    let elseLabel ← label
    let bodyCode ← inScope (statements body)
    let elseCode ← inScope (statements alternative)
    return code ++ [.branch value bodyLabel elseLabel, .label bodyLabel] ++ bodyCode ++
      [.jump endLabel, .label elseLabel] ++ elseCode ++ [.label endLabel]
  | .repeatWhile condition body => do
    let startLabel ← label
    let bodyLabel ← label
    let endLabel ← label
    let (code, value) ← expression condition
    let bodyCode ← inScope (statements body)
    return [.label startLabel] ++ code ++ [.branch value bodyLabel endLabel, .label bodyLabel] ++
      bodyCode ++ [.jump startLabel, .label endLabel]
  | .block body => inScope (statements body)
  | .function name parameters body => do
    let entry ← label
    modify fun naming => naming.openFunction parameters
    let code ← inScope (statements body)
    modify Naming.closeFunction
    return [.label entry, .functionStart name parameters.length] ++ code ++ [.functionEnd name]
  | .giveBack none => return [.giveBack none]
  | .giveBack (some value) => do
    let (code, value) ← expression value
    return code ++ [.giveBack (some value)]
  | .print value => do
    let (code, value) ← expression value
    return code ++ [.print value]
  | .expression value => do
    let (code, _) ← expression value
    return code

/-- The instructions of statements one after the other. -/
def statements : List Statement → Lower (List Instruction)
  | [] => return []
  | first :: rest => do
    let firstCode ← statement first
    let restCode ← statements rest
    return firstCode ++ restCode

end

end Lower

/-- The instructions of a program. -/
def Program.lower (program : Program) : List Instruction :=
  ((Lower.statements program.body).run (Naming.openScope {})).1

end BanglaScript
