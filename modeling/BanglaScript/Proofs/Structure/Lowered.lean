import BanglaScript.Proofs.Lowering.Frame
import BanglaScript.Proofs.Structure.Direct
import BanglaScript.Proofs.Structure.Labelled

/-!
# The labelled nodes of a program

Lowering hands out the labels of each statement and arranges its parts around
them.  The same walk gives labelled nodes, and it ties the two translations of
a program together: the instructions of the labelled nodes are the lowered
program, and without their labels they are the nodes of the program.
-/

namespace BanglaScript

open List Lower

namespace LabelledNode

/-- The assignment of a value.  A variable is not assigned to itself. -/
def assign (target : Place) (value : Operand) : List StraightNode :=
  if value.readsPlace target then [] else [.assign target value]

mutual

/-- The straight nodes of an expression and the operand that holds its value. -/
def ofExpression : Expr → Lower (List StraightNode × Operand)
  | .literal (.number value) => pure ([], .number value)
  | .literal (.string contents) => pure ([], .string contents)
  | .identifier name => do return ([], .variable (← Lower.resolve name))
  | .binary operator lhs rhs => do
    let (lhsNodes, lhsValue) ← ofExpression lhs
    let (rhsNodes, rhsValue) ← ofExpression rhs
    let target ← Lower.temporary
    return (lhsNodes ++ rhsNodes ++
      [.binary (Opcode.ofOperator operator) target lhsValue rhsValue], .temporary target)
  | .call name arguments => do
    let (nodes, values) ← ofExpressions arguments
    let target ← Lower.temporary
    return (nodes ++ [.call name values target], .temporary target)

/-- The straight nodes of several expressions and the operands that hold their
values. -/
def ofExpressions : List Expr → Lower (List StraightNode × List Operand)
  | [] => pure ([], [])
  | first :: rest => do
    let (firstNodes, firstValue) ← ofExpression first
    let (restNodes, restValues) ← ofExpressions rest
    return (firstNodes ++ restNodes, firstValue :: restValues)

end

mutual

/-- The labelled nodes of a statement. -/
def ofStatement : Statement → Lower (List LabelledNode)
  | .declaration name none => do
    let _ ← Lower.declare name
    return []
  | .declaration name (some initial) => do
    let (nodes, value) ← ofExpression initial
    let target ← Lower.declare name
    return (nodes ++ assign (.variable target) value).map straight
  | .assignment name value => do
    let (nodes, value) ← ofExpression value
    let target ← Lower.resolve name
    return (nodes ++ assign (.variable target) value).map straight
  | .ifThen condition body => do
    let (nodes, value) ← ofExpression condition
    let bodyLabel ← Lower.label
    let endLabel ← Lower.label
    let bodyNodes ← Lower.inScope (ofStatements body)
    return nodes.map straight ++ [.ifThen value bodyLabel endLabel bodyNodes]
  | .ifElse condition body alternative => do
    let (nodes, value) ← ofExpression condition
    let bodyLabel ← Lower.label
    let endLabel ← Lower.label
    let elseLabel ← Lower.label
    let bodyNodes ← Lower.inScope (ofStatements body)
    let elseNodes ← Lower.inScope (ofStatements alternative)
    return nodes.map straight ++
      [.ifElse value bodyLabel elseLabel endLabel bodyNodes elseNodes]
  | .repeatWhile condition body => do
    let startLabel ← Lower.label
    let bodyLabel ← Lower.label
    let endLabel ← Lower.label
    let (before, value) ← ofExpression condition
    let bodyNodes ← Lower.inScope (ofStatements body)
    return [.loop startLabel bodyLabel endLabel before value bodyNodes]
  | .block body => Lower.inScope (ofStatements body)
  | .function name parameters body => do
    let entry ← Lower.label
    modify fun naming => naming.openFunction parameters
    let bodyNodes ← Lower.inScope (ofStatements body)
    modify Naming.closeFunction
    return [.function entry name parameters.length bodyNodes]
  | .giveBack none => return [.straight (.giveBack none)]
  | .giveBack (some value) => do
    let (nodes, value) ← ofExpression value
    return (nodes ++ [StraightNode.giveBack (some value)]).map straight
  | .print value => do
    let (nodes, value) ← ofExpression value
    return (nodes ++ [StraightNode.print value]).map straight
  | .expression value => do
    let (nodes, _) ← ofExpression value
    return nodes.map straight

/-- The labelled nodes of statements one after the other. -/
def ofStatements : List Statement → Lower (List LabelledNode)
  | [] => return []
  | first :: rest => do
    let firstNodes ← ofStatement first
    let restNodes ← ofStatements rest
    return firstNodes ++ restNodes

end

/-- The labelled nodes of a program. -/
def ofProgram (program : Program) : List LabelledNode :=
  ((ofStatements program.body).run (Naming.openScope {})).1

/-! ## Instructions -/

open StateRun

theorem instructions_assign (target : Place) (value : Operand) :
    (assign target value).flatMap StraightNode.instructions = Lower.assign target value := by
  unfold assign Lower.assign
  split <;> rfl

mutual

theorem run_expression (expr : Expr) (naming : Naming) :
    (Lower.expression expr).run naming =
      ((((ofExpression expr).run naming).1.1.flatMap StraightNode.instructions,
        ((ofExpression expr).run naming).1.2), ((ofExpression expr).run naming).2) := by
  cases expr with
  | literal constant => cases constant <;> rfl
  | identifier => rfl
  | binary operator lhs rhs =>
    simp only [Lower.expression, ofExpression, run_bind, run_pure, run_expression lhs,
      run_expression rhs, flatMap_append]
    rfl
  | call name arguments =>
    simp only [Lower.expression, ofExpression, run_bind, run_pure, run_expressions arguments,
      flatMap_append]
    simp [StraightNode.instructions]

theorem run_expressions (exprs : List Expr) (naming : Naming) :
    (Lower.expressions exprs).run naming =
      ((((ofExpressions exprs).run naming).1.1.flatMap StraightNode.instructions,
        ((ofExpressions exprs).run naming).1.2), ((ofExpressions exprs).run naming).2) := by
  cases exprs with
  | nil => rfl
  | cons first rest =>
    simp only [Lower.expressions, ofExpressions, run_bind, run_pure, run_expression first,
      run_expressions rest, flatMap_append]

end

mutual

theorem run_statement (statement : Statement) (naming : Naming) :
    (Lower.statement statement).run naming =
      (instructionsAll ((ofStatement statement).run naming).1,
        ((ofStatement statement).run naming).2) := by
  cases statement with
  | declaration name initial =>
    cases initial <;> simp only [Lower.statement, ofStatement, run_bind, run_pure, run_expression,
      instructionsAll, instructionsAll_straight, flatMap_append, instructions_assign]
  | assignment | expression =>
    simp only [Lower.statement, ofStatement, run_bind, run_pure, run_expression,
      instructionsAll_straight, flatMap_append, instructions_assign]
  | ifThen | ifElse | repeatWhile | function =>
    simp only [Lower.statement, ofStatement, run_bind, run_pure, run_expression, run_inScope,
      run_statements, instructionsAll_append, instructionsAll_straight]
    simp [instructionsAll, instructions]
  | block body =>
    simp only [Lower.statement, ofStatement, run_inScope, run_statements body]
  | giveBack value =>
    cases value <;> simp only [Lower.statement, ofStatement, run_bind, run_pure, run_expression,
      instructionsAll_straight, flatMap_append] <;> rfl
  | print =>
    simp only [Lower.statement, ofStatement, run_bind, run_pure, run_expression,
      instructionsAll_straight, flatMap_append]
    rfl

theorem run_statements (statements : List Statement) (naming : Naming) :
    (Lower.statements statements).run naming =
      (instructionsAll ((ofStatements statements).run naming).1,
        ((ofStatements statements).run naming).2) := by
  cases statements with
  | nil => simp only [Lower.statements, ofStatements, run_pure, instructionsAll]
  | cons first rest =>
    simp only [Lower.statements, ofStatements, run_bind, run_pure, run_statement first,
      run_statements rest, instructionsAll_append]

end

/-- The lowered program is the code of its labelled nodes. -/
theorem lower_eq_instructionsAll (program : Program) :
    program.lower = instructionsAll (ofProgram program) := by
  simp only [Program.lower, ofProgram, run_statements]

/-! ## Nodes -/

theorem toNode_assign (target : Place) (value : Operand) :
    (assign target value).map StraightNode.toNode = Node.Direct.assign target value := by
  unfold assign Node.Direct.assign
  split <;> rfl

/-- The number of labels plays no part in declaring a variable. -/
theorem declare_withLabels (naming : Naming) (name : String) (labels : Nat) :
    (naming.withLabels labels).declare name =
      ((naming.declare name).1, (naming.declare name).2.withLabels labels) := by
  unfold Naming.declare
  rw [show (naming.withLabels labels).bound? name = naming.bound? name from rfl]
  split <;> simp only [Naming.bind, Naming.withLabels] <;> split <;> rfl

mutual

/-- The nodes of an expression do not depend on the labels handed out. -/
theorem run_direct_expression (expr : Expr) (naming : Naming) (labels : Nat) :
    (Node.Direct.expression expr).run (naming.withLabels labels) =
      ((((ofExpression expr).run naming).1.1.map StraightNode.toNode,
        ((ofExpression expr).run naming).1.2),
        ((ofExpression expr).run naming).2.withLabels labels) := by
  cases expr with
  | literal constant => cases constant <;> rfl
  | identifier => rfl
  | binary operator lhs rhs =>
    simp only [Node.Direct.expression, ofExpression, run_bind, run_pure,
      run_direct_expression lhs, run_direct_expression rhs, map_append]
    rfl
  | call name arguments =>
    simp only [Node.Direct.expression, ofExpression, run_bind, run_pure,
      run_direct_expressions arguments, map_append]
    rfl

theorem run_direct_expressions (exprs : List Expr) (naming : Naming) (labels : Nat) :
    (Node.Direct.expressions exprs).run (naming.withLabels labels) =
      ((((ofExpressions exprs).run naming).1.1.map StraightNode.toNode,
        ((ofExpressions exprs).run naming).1.2),
        ((ofExpressions exprs).run naming).2.withLabels labels) := by
  cases exprs with
  | nil => rfl
  | cons first rest =>
    simp only [Node.Direct.expressions, ofExpressions, run_bind, run_pure,
      run_direct_expression first, run_direct_expressions rest, map_append]

end

/-- A scope of its own does not depend on the labels handed out. -/
theorem run_inScope_withLabels {inside : Lower (List Node)} {labelled : Lower (List LabelledNode)}
    (same : ∀ naming labels, inside.run (naming.withLabels labels) =
      (toNodes (labelled.run naming).1, (labelled.run naming).2.withLabels labels))
    (naming : Naming) (labels : Nat) :
    (Lower.inScope inside).run (naming.withLabels labels) =
      (toNodes ((Lower.inScope labelled).run naming).1,
        ((Lower.inScope labelled).run naming).2.withLabels labels) := by
  have opened := same naming.openScope labels
  rw [run_inScope, run_inScope,
    show (naming.withLabels labels).openScope = naming.openScope.withLabels labels from rfl, opened]
  rfl

mutual

/-- The nodes of a statement do not depend on the labels handed out. -/
theorem run_direct_statement (statement : Statement) (naming : Naming) (labels : Nat) :
    (Node.Direct.statement statement).run (naming.withLabels labels) =
      (toNodes ((ofStatement statement).run naming).1,
        ((ofStatement statement).run naming).2.withLabels labels) := by
  cases statement with
  | declaration name initial =>
    cases initial <;> simp only [Node.Direct.statement, ofStatement, run_bind, run_pure,
      run_declare, declare_withLabels, run_direct_expression, map_append, toNodes_append,
      toNodes_straight, toNode_assign, toNodes]
  | assignment =>
    simp only [Node.Direct.statement, ofStatement, run_bind, run_pure, run_resolve,
      run_direct_expression, map_append, toNodes_append, toNodes_straight, toNode_assign]
    rfl
  | ifThen condition body =>
    simp only [Node.Direct.statement, ofStatement, run_bind, run_pure, run_label,
      run_direct_expression, Naming.withLabels_withLabels]
    generalize (ofExpression condition).run naming = tested
    rw [← Naming.withLabels_withLabels tested.2 (tested.2.labels + 1 + 1),
      run_inScope_withLabels (run_direct_statements body)]
    simp [toNodes, toNode, toNodes_straight]
  | ifElse condition body alternative =>
    simp only [Node.Direct.statement, ofStatement, run_bind, run_pure, run_label,
      run_direct_expression, Naming.withLabels_withLabels]
    generalize (ofExpression condition).run naming = tested
    rw [← Naming.withLabels_withLabels tested.2 (tested.2.labels + 1 + 1 + 1),
      run_inScope_withLabels (run_direct_statements body),
      run_inScope_withLabels (run_direct_statements alternative)]
    simp [toNodes, toNode, toNodes_straight]
  | repeatWhile condition body =>
    simp only [Node.Direct.statement, ofStatement, run_bind, run_pure, run_label,
      Naming.withLabels_withLabels]
    rw [← Naming.withLabels_withLabels naming (naming.labels + 1 + 1 + 1),
      run_direct_expression, run_inScope_withLabels (run_direct_statements body)]
    simp [toNodes, toNode]
  | block body =>
    simp only [Node.Direct.statement, ofStatement,
      run_inScope_withLabels (run_direct_statements body)]
  | function name parameters body =>
    simp only [Node.Direct.statement, ofStatement, run_bind, run_pure, run_modify, run_label]
    have bodyRun := run_inScope_withLabels (run_direct_statements body)
      ((naming.withLabels (naming.labels + 1)).openFunction parameters) labels
    rw [show (naming.withLabels labels).openFunction parameters =
      ((naming.withLabels (naming.labels + 1)).openFunction parameters).withLabels labels
      from rfl, bodyRun]
    rfl
  | giveBack value =>
    cases value <;> simp only [Node.Direct.statement, ofStatement, run_bind, run_pure,
      run_direct_expression, map_append, toNodes_append, toNodes_straight] <;> rfl
  | print =>
    simp only [Node.Direct.statement, ofStatement, run_bind, run_pure,
      run_direct_expression, map_append, toNodes_append, toNodes_straight]
    rfl
  | expression =>
    simp only [Node.Direct.statement, ofStatement, run_bind, run_pure,
      run_direct_expression, toNodes_straight]

theorem run_direct_statements (statements : List Statement) (naming : Naming) (labels : Nat) :
    (Node.Direct.statements statements).run (naming.withLabels labels) =
      (toNodes ((ofStatements statements).run naming).1,
        ((ofStatements statements).run naming).2.withLabels labels) := by
  cases statements with
  | nil => simp only [Node.Direct.statements, ofStatements, run_pure, toNodes]
  | cons first rest =>
    simp only [Node.Direct.statements, ofStatements, run_bind, run_pure,
      run_direct_statement first, run_direct_statements rest, toNodes_append]

end

/-- The nodes of a program are its labelled nodes without their labels. -/
theorem toNodes_ofProgram (program : Program) :
    toNodes (ofProgram program) = program.toNodes := by
  have direct := run_direct_statements program.body (Naming.openScope {}) 0
  rw [show (Naming.openScope {}).withLabels 0 = Naming.openScope {} from rfl] at direct
  rw [Program.toNodes, direct, ofProgram]

end LabelledNode

end BanglaScript
