import BanglaScript.Proofs.Structure.Lowered

/-!
# The labels of a program

Lowering numbers its labels.  A statement that is lowered when `low` labels
have been handed out, and leaves `high` of them handed out, defines each of the
labels in between once and no other label.
-/

namespace BanglaScript

open Naming List

namespace LabelledNode

variable {low middle high : Nat} {body : List LabelledNode}

/-- Nodes that define each label above `low` and up to `high` once, and no
other label. -/
structure DefinesLabels (low high : Nat) (nodes : List LabelledNode) : Prop where
  ordered : low ≤ high
  count : ∀ label, (Code.definedLabels (instructionsAll nodes)).count label =
    if low < label ∧ label ≤ high then 1 else 0

theorem definesLabels_straight (low : Nat) (nodes : List StraightNode) :
    DefinesLabels low low (nodes.map straight) where
  ordered := Nat.le_refl low
  count label := by
    rw [instructionsAll_straight, StraightNode.definedLabels_flatMap, count_nil, if_neg (by omega)]

theorem DefinesLabels.append {first second : List LabelledNode}
    (firstLabels : DefinesLabels low middle first)
    (secondLabels : DefinesLabels middle high second) :
    DefinesLabels low high (first ++ second) where
  ordered := Nat.le_trans firstLabels.ordered secondLabels.ordered
  count label := by
    have firstOrdered := firstLabels.ordered
    have secondOrdered := secondLabels.ordered
    rw [instructionsAll_append, Code.definedLabels_append, count_append,
      firstLabels.count, secondLabels.count]
    split <;> split <;> split <;> omega

theorem count_definedLabels_cons (instruction : Instruction) (rest : List Instruction)
    (label : Nat) :
    (Code.definedLabels (instruction :: rest)).count label =
      (Code.definedLabels rest).count label + if instruction = .label label then 1 else 0 := by
  cases instruction <;>
    simp [Code.definedLabels, Instruction.definedLabel?, count_cons, filterMap_cons]

/-- A node around others that defines the next labels itself. -/
theorem DefinesLabels.around {node : LabelledNode} (own : Nat)
    (bodyLabels : DefinesLabels (low + own) high body)
    (count : ∀ label, (Code.definedLabels node.instructions).count label =
      (Code.definedLabels (instructionsAll body)).count label +
        if low < label ∧ label ≤ low + own then 1 else 0) :
    DefinesLabels low high [node] := by
  have bodyOrdered := bodyLabels.ordered
  refine ⟨by omega, fun label => ?_⟩
  rw [instructionsAll, instructionsAll, append_nil, count, bodyLabels.count]
  split <;> split <;> split <;> omega

theorem definesLabels_ifThen (bodyLabels : DefinesLabels (low + 2) high body)
    (condition : Operand) :
    DefinesLabels low high [.ifThen condition (low + 1) (low + 2) body] := by
  refine bodyLabels.around 2 fun label => ?_
  simp [instructions, count_definedLabels_cons, count_append]
  repeat' split
  all_goals omega

theorem definesLabels_ifElse {alternative : List LabelledNode}
    (bodyLabels : DefinesLabels (low + 3) middle body)
    (elseLabels : DefinesLabels middle high alternative) (condition : Operand) :
    DefinesLabels low high
      [.ifElse condition (low + 1) (low + 3) (low + 2) body alternative] := by
  refine (bodyLabels.append elseLabels).around 3 fun label => ?_
  simp [instructions, count_definedLabels_cons, count_append, instructionsAll_append]
  repeat' split
  all_goals omega

theorem definesLabels_loop (bodyLabels : DefinesLabels (low + 3) high body)
    (before : List StraightNode) (condition : Operand) :
    DefinesLabels low high [.loop (low + 1) (low + 2) (low + 3) before condition body] := by
  refine bodyLabels.around 3 fun label => ?_
  simp [instructions, count_definedLabels_cons, count_append, StraightNode.definedLabels_flatMap]
  repeat' split
  all_goals omega

theorem definesLabels_function (bodyLabels : DefinesLabels (low + 1) high body) (name : String)
    (parameters : Nat) :
    DefinesLabels low high [.function (low + 1) name parameters body] := by
  refine bodyLabels.around 1 fun label => ?_
  simp [instructions, count_definedLabels_cons, count_append]
  split <;> split <;> omega

open StateRun

@[simp]
theorem ofExpression_labels (expr : Expr) (naming : Naming) :
    ((ofExpression expr).run naming).2.labels = naming.labels := by
  have unchanged := Lower.run_expression_labels expr naming
  rwa [run_expression] at unchanged

theorem DefinesLabels.inScope {inside : Lower (List LabelledNode)}
    (labels : ∀ naming, DefinesLabels naming.labels (inside.run naming).2.labels
      (inside.run naming).1) (naming : Naming) :
    DefinesLabels naming.labels ((Lower.inScope inside).run naming).2.labels
      ((Lower.inScope inside).run naming).1 :=
  labels naming.openScope

mutual

/-- A statement defines the labels that lowering hands out for it. -/
theorem definesLabels_ofStatement (statement : Statement) (naming : Naming) :
    DefinesLabels naming.labels ((ofStatement statement).run naming).2.labels
      ((ofStatement statement).run naming).1 := by
  cases statement <;> (try cases ‹Option Expr›) <;>
    simp only [ofStatement, run_bind, run_pure, run_modify, Lower.run_label, Lower.run_resolve,
      Lower.run_declare, declare_labels, ofExpression_labels, withLabels_withLabels,
      withLabels_labels, closeFunction_labels]
  case ifThen condition body =>
    have bodyLabels := DefinesLabels.inScope (definesLabels_ofStatements body)
      (((ofExpression condition).run naming).2.withLabels (naming.labels + 1 + 1))
    exact (definesLabels_straight _ _).append (definesLabels_ifThen bodyLabels _)
  case ifElse condition body alternative =>
    have bodyLabels := DefinesLabels.inScope (definesLabels_ofStatements body)
      (((ofExpression condition).run naming).2.withLabels (naming.labels + 1 + 1 + 1))
    exact (definesLabels_straight _ _).append
      (definesLabels_ifElse bodyLabels (.inScope (definesLabels_ofStatements alternative) _) _)
  case repeatWhile condition body =>
    refine definesLabels_loop ?_ _ _
    have bodyLabels := DefinesLabels.inScope (definesLabels_ofStatements body)
      ((ofExpression condition).run (naming.withLabels (naming.labels + 1 + 1 + 1))).2
    rwa [ofExpression_labels] at bodyLabels
  case block body => exact DefinesLabels.inScope (definesLabels_ofStatements body) naming
  case function name parameters body =>
    have bodyLabels := DefinesLabels.inScope (definesLabels_ofStatements body)
      ((naming.withLabels (naming.labels + 1)).openFunction parameters)
    exact definesLabels_function bodyLabels _ _
  case declaration.none => exact definesLabels_straight _ []
  case giveBack.none => exact definesLabels_straight _ [.giveBack none]
  all_goals exact definesLabels_straight _ _

theorem definesLabels_ofStatements (statements : List Statement) (naming : Naming) :
    DefinesLabels naming.labels ((ofStatements statements).run naming).2.labels
      ((ofStatements statements).run naming).1 := by
  cases statements with
  | nil =>
    simp only [ofStatements, run_pure]
    exact definesLabels_straight _ []
  | cons first rest =>
    simp only [ofStatements, run_bind, run_pure]
    exact (definesLabels_ofStatement first naming).append (definesLabels_ofStatements rest _)

end

/-- A program defines each of its labels once. -/
theorem nodup_definedLabels_ofProgram (program : Program) :
    (Code.definedLabels (instructionsAll (ofProgram program))).Nodup := by
  rw [nodup_iff_count]
  intro label
  have labels := definesLabels_ofStatements program.body (Naming.openScope {})
  rw [ofProgram, labels.count label]
  split <;> omega

end LabelledNode

end BanglaScript
