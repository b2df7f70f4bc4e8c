import BanglaScript.Proofs.Pass.Rewriting
import BanglaScript.Proofs.Structure.Labels
import BanglaScript.Proofs.Structure.Recovered

/-!
# Recovery of lowered programs

The code of a program recovers to the nodes of the program: nothing is left
without a structure, and every conditional, loop, function and call comes back
where the program has it.  After the optimizer has run, the same structure
comes back, and only the assignments and operations in it may differ.
-/

namespace BanglaScript

open LabelledNode List

namespace Node

mutual

/-- Nothing in the node is left without a structure. -/
def IsStructured : Node → Prop
  | .simple _ | .call _ _ _ => True
  | .ifThen _ body => AreStructured body
  | .ifElse _ body alternative => AreStructured body ∧ AreStructured alternative
  | .loop before _ body => AreStructured before ∧ AreStructured body
  | .function _ _ body => AreStructured body
  | .unstructured _ => False

/-- Nothing in the nodes is left without a structure. -/
def AreStructured : List Node → Prop
  | [] => True
  | first :: rest => IsStructured first ∧ AreStructured rest

end

mutual

/-- The node without the assignments and operations in it. -/
def skeleton : Node → List Node
  | .simple (.assign _ _) | .simple (.binary _ _ _ _) => []
  | .ifThen condition body => [.ifThen condition (skeletonAll body)]
  | .ifElse condition body alternative =>
    [.ifElse condition (skeletonAll body) (skeletonAll alternative)]
  | .loop before condition body => [.loop (skeletonAll before) condition (skeletonAll body)]
  | .function name parameters body => [.function name parameters (skeletonAll body)]
  | node => [node]

/-- The nodes without the assignments and operations in them, at any depth. -/
def skeletonAll : List Node → List Node
  | [] => []
  | first :: rest => skeleton first ++ skeletonAll rest

end

@[simp]
theorem skeletonAll_append (first second : List Node) :
    skeletonAll (first ++ second) = skeletonAll first ++ skeletonAll second := by
  induction first with
  | nil => rfl
  | cons node rest ih => simp [skeletonAll, ih]

end Node

namespace LabelledNode

open Node Pass

variable {instruction : Instruction} {place : Place} {result : List Instruction}

theorem areStructured_straight (nodes : List StraightNode) :
    AreStructured (nodes.map StraightNode.toNode) := by
  induction nodes with
  | nil => trivial
  | cons node rest ih => exact ⟨by cases node <;> trivial, ih⟩

mutual

theorem isStructured_toNode (node : LabelledNode) : IsStructured (toNode node) := by
  cases node with
  | straight node => cases node <;> trivial
  | ifThen _ _ _ body | function _ _ _ body => exact areStructured_toNodes body
  | ifElse _ _ _ _ body alternative =>
    exact ⟨areStructured_toNodes body, areStructured_toNodes alternative⟩
  | loop _ _ _ before _ body => exact ⟨areStructured_straight before, areStructured_toNodes body⟩

/-- Labelled nodes have a structure throughout. -/
theorem areStructured_toNodes (nodes : List LabelledNode) : AreStructured (toNodes nodes) := by
  cases nodes with
  | nil => trivial
  | cons first rest => exact ⟨isStructured_toNode first, areStructured_toNodes rest⟩

end

/-! ## Rewriting labelled nodes -/

/-- An instruction that computes a value is a straight node, and not part of
the skeleton. -/
theorem exists_straight_of_computed (computed : instruction.computed? = some place) :
    ∃ node : StraightNode, node.instructions = [instruction] ∧ skeleton node.toNode = [] := by
  cases instruction with
  | assign target value => exact ⟨.assign target value, rfl, rfl⟩
  | binary opcode target lhs rhs => exact ⟨.binary opcode target lhs rhs, rfl, rfl⟩
  | _ => cases computed

/-- A computation is rewritten to straight nodes. -/
theorem exists_straight_of_rewrites_computed (computed : instruction.computed? = some place)
    (rewrites : Rewrites [instruction] result) :
    ∃ nodes : List StraightNode, nodes.flatMap StraightNode.instructions = result ∧
      skeletonAll (nodes.map StraightNode.toNode) = [] := by
  have single {second : Instruction} (secondComputed : second.computed? = some place) :
      ∃ nodes : List StraightNode, nodes.flatMap StraightNode.instructions = [second] ∧
        skeletonAll (nodes.map StraightNode.toNode) = [] := by
    obtain ⟨node, instructions, bare⟩ := exists_straight_of_computed secondComputed
    exact ⟨[node], by simp [instructions], by simp [skeletonAll, bare]⟩
  cases rewrites with
  | keep _ rest => cases rest; exact single computed
  | compute firstPlace secondPlace rest =>
    cases rest
    cases computed.symm.trans firstPlace
    exact single secondPlace
  | drop _ _ rest => cases rest; exact ⟨[], rfl, rfl⟩

/-- A straight node is rewritten to straight nodes with the same skeleton. -/
theorem exists_straight_of_rewrites_node {node : StraightNode}
    (rewrites : Rewrites node.instructions result) :
    ∃ nodes : List StraightNode, nodes.flatMap StraightNode.instructions = result ∧
      skeletonAll (nodes.map StraightNode.toNode) = skeleton node.toNode := by
  have unchanged (others : ∀ instruction ∈ node.instructions, instruction.computed? = none) :
      ∃ nodes : List StraightNode, nodes.flatMap StraightNode.instructions = result ∧
        skeletonAll (nodes.map StraightNode.toNode) = skeleton node.toNode := by
    rw [rewrites.eq_of_forall_computed?_eq_none others]
    exact ⟨[node], by simp, by simp [skeletonAll]⟩
  cases node with
  | assign | binary => exact exists_straight_of_rewrites_computed rfl rewrites
  | print | giveBack => exact unchanged (by simp [StraightNode.instructions, Instruction.computed?])
  | call =>
    refine unchanged fun instruction instructionMem => ?_
    simp only [StraightNode.instructions, mem_append, mem_map, mem_cons,
      not_mem_nil, or_false] at instructionMem
    rcases instructionMem with ⟨argument, -, rfl⟩ | rfl | rfl <;> rfl

/-- Straight nodes are rewritten to straight nodes with the same skeleton. -/
theorem exists_straight_of_rewrites {nodes : List StraightNode}
    (rewrites : Rewrites (nodes.flatMap StraightNode.instructions) result) :
    ∃ rewritten : List StraightNode, rewritten.flatMap StraightNode.instructions = result ∧
      skeletonAll (rewritten.map StraightNode.toNode) =
        skeletonAll (nodes.map StraightNode.toNode) := by
  induction nodes generalizing result with
  | nil => cases rewrites; exact ⟨[], rfl, rfl⟩
  | cons node rest ih =>
    obtain ⟨_, _, rfl, nodeRewrites, restRewrites⟩ := rewrites.exists_of_append
    obtain ⟨first, rfl, firstSkeleton⟩ := exists_straight_of_rewrites_node nodeRewrites
    obtain ⟨second, rfl, secondSkeleton⟩ := ih restRewrites
    refine ⟨first ++ second, flatMap_append, ?_⟩
    rw [map_append, skeletonAll_append, firstSkeleton, secondSkeleton]
    rfl

mutual

theorem exists_nodes_of_rewrites_node (node : LabelledNode) {result : List Instruction}
    (rewrites : Rewrites (instructions node) result) :
    ∃ nodes, instructionsAll nodes = result ∧
      skeletonAll (toNodes nodes) = skeleton (toNode node) := by
  cases node with
  | straight =>
    obtain ⟨nodes, rfl, same⟩ := exists_straight_of_rewrites_node rewrites
    refine ⟨nodes.map straight, instructionsAll_straight nodes, ?_⟩
    rw [toNodes_straight]
    exact same
  | ifThen condition bodyLabel endLabel body =>
    obtain ⟨_, rfl, bodyRewrites⟩ := rewrites.exists_of_enclosed
    obtain ⟨rewritten, rfl, bodySkeleton⟩ := exists_nodes_of_rewrites body bodyRewrites
    refine ⟨[.ifThen condition bodyLabel endLabel rewritten], append_nil _, ?_⟩
    simp [toNodes, toNode, skeletonAll, skeleton, bodySkeleton]
  | ifElse condition bodyLabel elseLabel endLabel body alternative =>
    obtain ⟨_, _, rfl, inner, ends⟩ := rewrites.exists_of_append
    obtain ⟨_, _, rfl, first, elseRewrites⟩ := inner.exists_of_append
    obtain ⟨_, rfl, bodyRewrites⟩ := first.exists_of_enclosed
    obtain rfl := ends.eq_of_forall_computed?_eq_none (by simp [Instruction.computed?])
    obtain ⟨rewrittenBody, rfl, bodySkeleton⟩ := exists_nodes_of_rewrites body bodyRewrites
    obtain ⟨rewrittenElse, rfl, elseSkeleton⟩ :=
      exists_nodes_of_rewrites alternative elseRewrites
    refine ⟨[.ifElse condition bodyLabel elseLabel endLabel rewrittenBody rewrittenElse],
      append_nil _, ?_⟩
    simp [toNodes, toNode, skeletonAll, skeleton, bodySkeleton, elseSkeleton]
  | loop startLabel bodyLabel endLabel before condition body =>
    obtain ⟨_, _, rfl, inner, ends⟩ := rewrites.exists_of_append
    obtain ⟨_, _, rfl, first, bodyRewrites⟩ := inner.exists_of_append
    obtain ⟨_, rfl, beforeRewrites⟩ := first.exists_of_enclosed
    obtain rfl := ends.eq_of_forall_computed?_eq_none (by simp [Instruction.computed?])
    obtain ⟨rewrittenBefore, rfl, beforeSkeleton⟩ := exists_straight_of_rewrites beforeRewrites
    obtain ⟨rewrittenBody, rfl, bodySkeleton⟩ := exists_nodes_of_rewrites body bodyRewrites
    refine ⟨[.loop startLabel bodyLabel endLabel rewrittenBefore condition rewrittenBody],
      append_nil _, ?_⟩
    simp [toNodes, toNode, skeletonAll, skeleton, beforeSkeleton, bodySkeleton]
  | function entry name parameters body =>
    obtain ⟨_, rfl, bodyRewrites⟩ := rewrites.exists_of_enclosed
    obtain ⟨rewritten, rfl, bodySkeleton⟩ := exists_nodes_of_rewrites body bodyRewrites
    refine ⟨[.function entry name parameters rewritten], append_nil _, ?_⟩
    simp [toNodes, toNode, skeletonAll, skeleton, bodySkeleton]

/-- Labelled nodes are rewritten to labelled nodes with the same skeleton. -/
theorem exists_nodes_of_rewrites (nodes : List LabelledNode) {result : List Instruction}
    (rewrites : Rewrites (instructionsAll nodes) result) :
    ∃ rewritten, instructionsAll rewritten = result ∧
      skeletonAll (toNodes rewritten) = skeletonAll (toNodes nodes) := by
  cases nodes with
  | nil => cases rewrites; exact ⟨[], rfl, rfl⟩
  | cons first rest =>
    obtain ⟨_, _, rfl, firstRewrites, restRewrites⟩ := rewrites.exists_of_append
    obtain ⟨firstNodes, rfl, firstSkeleton⟩ := exists_nodes_of_rewrites_node first firstRewrites
    obtain ⟨restNodes, rfl, restSkeleton⟩ := exists_nodes_of_rewrites rest restRewrites
    refine ⟨firstNodes ++ restNodes, instructionsAll_append firstNodes restNodes, ?_⟩
    simp [toNodes, skeletonAll, firstSkeleton, restSkeleton]

end

/-- The code of labelled nodes of the given skeleton, each label defined
once. -/
def IsCodeOf (frame : List Node) (code : List Instruction) : Prop :=
  (Code.definedLabels code).Nodup ∧
    ∃ nodes, instructionsAll nodes = code ∧ skeletonAll (toNodes nodes) = frame

theorem isCodeOf_lower (program : Program) :
    IsCodeOf (skeletonAll program.toNodes) program.lower := by
  rw [lower_eq_instructionsAll]
  exact ⟨nodup_definedLabels_ofProgram program, ofProgram program, rfl,
    congrArg skeletonAll (toNodes_ofProgram program)⟩

theorem IsCodeOf.of_rewrites {frame : List Node} {code : List Instruction}
    (rewrites : Rewrites code result) (isCode : IsCodeOf frame code) : IsCodeOf frame result := by
  obtain ⟨distinct, nodes, rfl, rfl⟩ := isCode
  obtain ⟨rewritten, rfl, same⟩ := exists_nodes_of_rewrites nodes rewrites
  exact ⟨rewrites.definedLabels_eq ▸ distinct, rewritten, rfl, same⟩

theorem IsCodeOf.recover {frame : List Node} {code : List Instruction}
    (isCode : IsCodeOf frame code) :
    AreStructured (Node.recover code) ∧ skeletonAll (Node.recover code) = frame := by
  obtain ⟨distinct, nodes, rfl, same⟩ := isCode
  rw [recover_instructionsAll distinct]
  exact ⟨areStructured_toNodes nodes, same⟩

end LabelledNode

/-- The code of a program recovers to the nodes of the program, all of them
structured.  The optimized code recovers to structured nodes with the same
conditionals, loops, functions, calls, prints and returns. -/
theorem recover_lower (program : Program) :
    Node.recover program.lower = program.toNodes ∧
      Node.AreStructured (Node.recover program.lower) ∧
      Node.AreStructured (Node.recover (optimize program.lower)) ∧
      Node.skeletonAll (Node.recover (optimize program.lower)) =
        Node.skeletonAll program.toNodes := by
  have lowered := isCodeOf_lower program
  have optimized : LabelledNode.IsCodeOf (Node.skeletonAll program.toNodes)
      (optimize program.lower) :=
    Pass.runAll_of_rewrites (fun _ _ => LabelledNode.IsCodeOf.of_rewrites) Pass.all lowered
  refine ⟨?_, lowered.recover.1, optimized.recover⟩
  rw [lower_eq_instructionsAll, recover_instructionsAll (nodup_definedLabels_ofProgram program),
    toNodes_ofProgram]

end BanglaScript
