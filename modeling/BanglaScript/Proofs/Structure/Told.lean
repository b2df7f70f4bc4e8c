import BanglaScript.Proofs.Code.Account
import BanglaScript.Proofs.Structure.Faithful

/-!
# Accounts of nodes

Nodes tell which names they use, which functions they call and declare, and where
they return.  The code of labelled nodes tells the same.  Calls, functions and
returns are told by the skeleton of the nodes already, so they stay when the
optimizer runs.
-/

namespace BanglaScript

open Eventful Account

namespace Node

mutual

/-- What a node tells. -/
def account : Node → Account
  | .simple instruction => .of (events instruction)
  | .call name arguments result =>
    .of (Event.ofReads arguments ++ [.call name] ++ Event.ofWrite (result.map .temporary))
  | .ifThen condition body => (Account.of (Event.ofReads [condition])).next (accountAll body)
  | .ifElse condition body alternative =>
    ((Account.of (Event.ofReads [condition])).next (accountAll body)).next
      (accountAll alternative)
  | .loop before condition body =>
    ((accountAll before).next (.of (Event.ofReads [condition]))).next (accountAll body)
  | .function name _ body => .function name (accountAll body)
  | .unstructured _ => .nothing

/-- What nodes tell, one after the other. -/
def accountAll : List Node → Account
  | [] => .nothing
  | first :: rest => (account first).next (accountAll rest)

end

theorem accountAll_append (first second : List Node) :
    accountAll (first ++ second) = (accountAll first).next (accountAll second) := by
  induction first with
  | nil => exact (nothing_next _).symm
  | cons node rest ih =>
    change (account node).next (accountAll (rest ++ second)) = _
    rw [ih, ← next_assoc]
    rfl

mutual

theorem isNested_account (node : Node) : (account node).IsNested := by
  cases node with
  | simple | call => exact isNested_of _
  | ifThen condition body => exact (isNested_of _).next (isNested_accountAll body)
  | ifElse condition body alternative =>
    exact ((isNested_of _).next (isNested_accountAll body)).next
      (isNested_accountAll alternative)
  | loop before condition body =>
    exact ((isNested_accountAll before).next (isNested_of _)).next
      (isNested_accountAll body)
  | function name parameters body => exact (isNested_accountAll body).function name
  | unstructured => exact isNested_nothing

/-- Nodes number their functions one after the other. -/
theorem isNested_accountAll (nodes : List Node) : (accountAll nodes).IsNested := by
  cases nodes with
  | nil => exact isNested_nothing
  | cons first rest => exact (isNested_account first).next (isNested_accountAll rest)

end

/-- Computations only use names. -/
theorem filter_events_of_computed {instruction : Instruction} {place : Place}
    (computed : instruction.computed? = some place) :
    (events instruction).filter (fun event => !event.isUse) = [] := by
  cases instruction with
  | assign | binary => exact Event.filter_ofReads_append _ [] _
  | _ => cases computed

mutual

/-- Calls, functions and returns are those of the skeleton. -/
theorem withoutUses_skeleton (node : Node) :
    (accountAll (skeleton node)).withoutUses = (account node).withoutUses := by
  have dropped {instruction : Instruction} {place : Place}
      (computed : instruction.computed? = some place) :
      Account.nothing.withoutUses = (account (.simple instruction)).withoutUses := by
    rw [account, withoutUses_of, filter_events_of_computed computed]
    rfl
  have kept (node : Node) : accountAll [node] = account node := next_nothing _
  cases node with
  | simple instruction =>
    cases instruction with
    | assign | binary => exact dropped rfl
    | _ => exact congrArg Account.withoutUses (kept _)
  | call | unstructured => exact congrArg Account.withoutUses (kept _)
  | ifThen condition body =>
    rw [skeleton, kept, account, account, withoutUses_next, withoutUses_next,
      withoutUses_skeletonAll body]
  | ifElse condition body alternative =>
    simp only [skeleton, kept, account, withoutUses_next, withoutUses_skeletonAll body,
      withoutUses_skeletonAll alternative]
  | loop before condition body =>
    simp only [skeleton, kept, account, withoutUses_next, withoutUses_skeletonAll body,
      withoutUses_skeletonAll before]
  | function name parameters body =>
    simp only [skeleton, kept, account, withoutUses_function, withoutUses_skeletonAll body]

theorem withoutUses_skeletonAll (nodes : List Node) :
    (accountAll (skeletonAll nodes)).withoutUses = (accountAll nodes).withoutUses := by
  cases nodes with
  | nil => rfl
  | cons first rest =>
    rw [skeletonAll, accountAll_append, accountAll, withoutUses_next,
      withoutUses_next, withoutUses_skeleton first, withoutUses_skeletonAll rest]

end

end Node

/-! ## Code of labelled nodes -/

namespace LabelledNode

open Node

theorem tells_label (label : Nat) : Tells [Instruction.label label] .nothing :=
  .silent (fun _ => rfl) rfl

theorem tells_branch (condition : Operand) (whenTrue whenFalse label : Nat) :
    Tells [Instruction.branch condition whenTrue whenFalse, .label label]
      (.of (Event.ofReads [condition])) := by
  have tests : Tells [Instruction.branch condition whenTrue whenFalse]
      (.of (Event.ofReads [condition] ++ [] ++ [])) := .single fun _ => rfl
  rw [List.append_nil, List.append_nil] at tests
  have whole := tests.append (tells_label label)
  rwa [next_nothing] at whole

theorem tells_jump (label next : Nat) : Tells [Instruction.jump label, .label next] .nothing := by
  have jumps : Tells [Instruction.jump label] .nothing := .silent (fun _ => rfl) rfl
  have whole := jumps.append (tells_label next)
  rwa [next_nothing] at whole

theorem tells_pushes (arguments : List Operand) :
    Tells (arguments.map Instruction.push) (.of (Event.ofReads arguments)) := by
  induction arguments with
  | nil => exact .nil
  | cons first rest ih =>
    have pushes : Tells [Instruction.push first] (.of (Event.ofReads [first] ++ [] ++ [])) :=
      .single fun _ => rfl
    rw [List.append_nil, List.append_nil] at pushes
    have whole := pushes.append ih
    rwa [← of_append, Event.ofReads, Event.ofReads, ← List.map_append,
      ← List.filterMap_append] at whole

theorem tells_straight (node : StraightNode) :
    Tells node.instructions (account node.toNode) := by
  cases node with
  | call name arguments result =>
    have calls : Tells [Instruction.call name arguments.length] (.of [.call name]) :=
      .single fun _ => rfl
    have pops : Tells [Instruction.pop result] (.of (Event.ofWrite (some (.temporary result)))) :=
      .single fun _ => rfl
    have whole := (tells_pushes arguments).append (calls.append pops)
    rw [← of_append, ← of_append] at whole
    rw [StraightNode.toNode, account, List.append_assoc]
    exact whole
  | _ => exact .single fun _ => rfl

theorem tells_straights (nodes : List StraightNode) :
    Tells (nodes.flatMap StraightNode.instructions)
      (accountAll (nodes.map StraightNode.toNode)) := by
  induction nodes with
  | nil => exact .nil
  | cons first rest ih => exact (tells_straight first).append ih

mutual

/-- The code of a labelled node tells what the node tells. -/
theorem tells_node (node : LabelledNode) : Tells (instructions node) (account (toNode node)) := by
  cases node with
  | straight node => exact tells_straight node
  | ifThen condition bodyLabel endLabel body =>
    have whole := ((tells_branch condition bodyLabel endLabel bodyLabel).append
      (tells_nodes body)).append (tells_label endLabel)
    rwa [next_nothing] at whole
  | ifElse condition bodyLabel elseLabel endLabel body alternative =>
    have whole := ((((tells_branch condition bodyLabel elseLabel bodyLabel).append
      (tells_nodes body)).append (tells_jump endLabel elseLabel)).append
      (tells_nodes alternative)).append (tells_label endLabel)
    rwa [next_nothing, next_nothing] at whole
  | loop startLabel bodyLabel endLabel before condition body =>
    have whole := ((((tells_label startLabel).append (tells_straights before)).append
      (tells_branch condition bodyLabel endLabel bodyLabel)).append (tells_nodes body)).append
      (tells_jump startLabel endLabel)
    rwa [next_nothing, nothing_next] at whole
  | function entry name parameters body =>
    have inner : Tells ([Instruction.functionStart name parameters] ++ instructionsAll body ++
        [.functionEnd name]) (.function name (accountAll (toNodes body))) :=
      (tells_nodes body).function (fun _ => rfl) rfl (fun _ => rfl) rfl
    have whole := (tells_label entry).append inner
    rwa [nothing_next] at whole

theorem tells_nodes (nodes : List LabelledNode) :
    Tells (instructionsAll nodes) (accountAll (toNodes nodes)) := by
  cases nodes with
  | nil => exact .nil
  | cons first rest => exact (tells_node first).append (tells_nodes rest)

end

variable {frame : List Node} {code : List Instruction} (isCode : IsCodeOf frame code)

include isCode

/-- Code of labelled nodes tells what the recovered nodes tell. -/
theorem IsCodeOf.tells : Tells code (accountAll (Node.recover code)) := by
  obtain ⟨distinct, nodes, rfl, _⟩ := isCode
  rw [recover_instructionsAll distinct]
  exact tells_nodes nodes

/-- Calls, functions and returns are told by the skeleton. -/
theorem IsCodeOf.withoutUses :
    (accountAll (Node.recover code)).withoutUses = (accountAll frame).withoutUses := by
  rw [← isCode.recover.2, withoutUses_skeletonAll]

end LabelledNode

end BanglaScript
