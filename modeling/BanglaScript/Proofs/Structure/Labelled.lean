import BanglaScript.Proofs.Code.Segment

/-!
# Structured code with its labels

A labelled node is a piece of structured code together with the labels that
its arrangement uses.  It has two readings: the instructions that it stands
for, and the node that remains when the labels are forgotten.

The code before the condition of a loop is straight, that is, free of labels
and jumps, and only straight code can stand there: a labelled node cannot be
built in any other way.
-/

namespace BanglaScript

open List

/-- A node without labels and jumps. -/
inductive StraightNode where
  | assign (target : Place) (value : Operand)
  | binary (opcode : Opcode) (target : Nat) (lhs rhs : Operand)
  | print (value : Operand)
  | giveBack (value : Option Operand)
  | call (name : String) (arguments : List Operand) (result : Nat)

namespace StraightNode

/-- The instructions of a straight node. -/
def instructions : StraightNode → List Instruction
  | assign target value => [.assign target value]
  | binary opcode target lhs rhs => [.binary opcode target lhs rhs]
  | print value => [.print value]
  | giveBack value => [.giveBack value]
  | call name arguments result =>
    arguments.map Instruction.push ++ [.call name arguments.length, .pop result]

/-- The node itself. -/
def toNode : StraightNode → Node
  | assign target value => .simple (.assign target value)
  | binary opcode target lhs rhs => .simple (.binary opcode target lhs rhs)
  | print value => .simple (.print value)
  | giveBack value => .simple (.giveBack value)
  | call name arguments result => .call name arguments (some result)

end StraightNode

/-- Structured code with the labels of its arrangements. -/
inductive LabelledNode where
  | straight (node : StraightNode)
  | ifThen (condition : Operand) (bodyLabel endLabel : Nat) (body : List LabelledNode)
  | ifElse (condition : Operand) (bodyLabel elseLabel endLabel : Nat)
      (body alternative : List LabelledNode)
  | loop (startLabel bodyLabel endLabel : Nat) (before : List StraightNode)
      (condition : Operand) (body : List LabelledNode)
  | function (entry : Nat) (name : String) (parameters : Nat) (body : List LabelledNode)

namespace LabelledNode

mutual

/-- The instructions that a labelled node stands for. -/
def instructions : LabelledNode → List Instruction
  | straight node => node.instructions
  | ifThen condition bodyLabel endLabel body =>
    [.branch condition bodyLabel endLabel, .label bodyLabel] ++ instructionsAll body ++
      [.label endLabel]
  | ifElse condition bodyLabel elseLabel endLabel body alternative =>
    [.branch condition bodyLabel elseLabel, .label bodyLabel] ++ instructionsAll body ++
      [.jump endLabel, .label elseLabel] ++ instructionsAll alternative ++ [.label endLabel]
  | loop startLabel bodyLabel endLabel before condition body =>
    [.label startLabel] ++ before.flatMap StraightNode.instructions ++
      [.branch condition bodyLabel endLabel, .label bodyLabel] ++ instructionsAll body ++
      [.jump startLabel, .label endLabel]
  | function entry name parameters body =>
    [.label entry, .functionStart name parameters] ++ instructionsAll body ++
      [.functionEnd name]

/-- The instructions that several labelled nodes stand for. -/
def instructionsAll : List LabelledNode → List Instruction
  | [] => []
  | first :: rest => instructions first ++ instructionsAll rest

end

mutual

/-- The node without its labels. -/
def toNode : LabelledNode → Node
  | straight node => node.toNode
  | ifThen condition _ _ body => .ifThen condition (toNodes body)
  | ifElse condition _ _ _ body alternative =>
    .ifElse condition (toNodes body) (toNodes alternative)
  | loop _ _ _ before condition body =>
    .loop (before.map StraightNode.toNode) condition (toNodes body)
  | function _ name parameters body => .function name parameters (toNodes body)

/-- Several nodes without their labels. -/
def toNodes : List LabelledNode → List Node
  | [] => []
  | first :: rest => toNode first :: toNodes rest

end

@[simp]
theorem instructionsAll_append (first second : List LabelledNode) :
    instructionsAll (first ++ second) = instructionsAll first ++ instructionsAll second := by
  induction first with
  | nil => rfl
  | cons node rest ih => simp [instructionsAll, ih]

@[simp]
theorem toNodes_append (first second : List LabelledNode) :
    toNodes (first ++ second) = toNodes first ++ toNodes second := by
  induction first with
  | nil => rfl
  | cons node rest ih => simp [toNodes, ih]

/-- Straight nodes are labelled nodes without labels. -/
theorem instructionsAll_straight (nodes : List StraightNode) :
    instructionsAll (nodes.map straight) = nodes.flatMap StraightNode.instructions := by
  induction nodes with
  | nil => rfl
  | cons node rest ih => simp [instructionsAll, instructions, ih]

theorem toNodes_straight (nodes : List StraightNode) :
    toNodes (nodes.map straight) = nodes.map StraightNode.toNode := by
  induction nodes with
  | nil => rfl
  | cons node rest ih => simp [toNodes, toNode, ih]

end LabelledNode

/-! ## Instructions of labelled nodes -/

/-- Straight instructions take part in no arrangement of labels and jumps. -/
def Instruction.isStraight : Instruction → Bool
  | .assign _ _ | .binary _ _ _ _ | .print _ | .giveBack _ => true
  | .push _ | .call _ _ | .pop _ => true
  | _ => false

namespace StraightNode

theorem instructions_ne_nil (node : StraightNode) : node.instructions ≠ [] := by
  cases node <;> simp [instructions]

theorem isStraight_of_mem {node : StraightNode} {instruction : Instruction}
    (member : instruction ∈ node.instructions) : instruction.isStraight = true := by
  cases node with
  | call =>
    simp only [instructions, mem_append, mem_map, mem_cons, not_mem_nil, or_false] at member
    obtain ⟨value, _, rfl⟩ | rfl | rfl := member <;> rfl
  | _ =>
    simp only [instructions, mem_singleton] at member
    subst member
    rfl

theorem isStraight_of_mem_flatMap {nodes : List StraightNode} {instruction : Instruction}
    (member : instruction ∈ nodes.flatMap StraightNode.instructions) :
    instruction.isStraight = true := by
  obtain ⟨_, _, memberOfNode⟩ := mem_flatMap.mp member
  exact isStraight_of_mem memberOfNode

/-- Straight code defines no labels. -/
@[simp]
theorem definedLabels_flatMap (nodes : List StraightNode) :
    Code.definedLabels (nodes.flatMap StraightNode.instructions) = [] := by
  apply eq_nil_iff_forall_not_mem.mpr
  intro label defined
  have straight := isStraight_of_mem_flatMap (Code.mem_definedLabels.mp defined)
  cases straight

end StraightNode

namespace LabelledNode

theorem instructions_ne_nil (node : LabelledNode) : node.instructions ≠ [] := by
  cases node with
  | straight node => exact node.instructions_ne_nil
  | _ => simp [instructions]

/-- The code of labelled nodes does not end in a jump. -/
theorem getLast?_instructionsAll_ne_jump (nodes : List LabelledNode) (label : Nat) :
    (instructionsAll nodes).getLast? ≠ some (.jump label) := by
  have ofNode (node : LabelledNode) : (instructions node).getLast? ≠ some (.jump label) := by
    cases node with
    | straight node => cases node <;> simp [instructions, StraightNode.instructions]
    | _ => simp [instructions, getLast?_cons]
  induction nodes with
  | nil => simp [instructionsAll]
  | cons first rest ih =>
    rw [instructionsAll, getLast?_append]
    cases last : (instructionsAll rest).getLast? with
    | none => simpa [last] using ofNode first
    | some => simpa [last] using ih

/-- A property that passes from the parts of an arrangement to the whole. -/
structure PassesOn (holds : List Instruction → Prop) : Prop where
  nil : holds []
  append : ∀ {first second}, holds first → holds second → holds (first ++ second)
  straight : ∀ node : StraightNode, holds node.instructions
  label : ∀ label, holds [.label label]
  jump : ∀ label, holds [.jump label]
  branch : ∀ condition whenTrue whenFalse, holds [.branch condition whenTrue whenFalse]
  function : ∀ {body} name parameters, holds body →
    holds ([.functionStart name parameters] ++ body ++ [.functionEnd name])

namespace PassesOn

variable {holds : List Instruction → Prop}

theorem straights (passesOn : PassesOn holds) (nodes : List StraightNode) :
    holds (nodes.flatMap StraightNode.instructions) := by
  induction nodes with
  | nil => exact passesOn.nil
  | cons node rest ih => exact passesOn.append (passesOn.straight node) ih

mutual

theorem node (passesOn : PassesOn holds) (node : LabelledNode) : holds node.instructions := by
  have tested (condition : Operand) (whenTrue whenFalse label : Nat) :
      holds [.branch condition whenTrue whenFalse, .label label] :=
    passesOn.append (passesOn.branch condition whenTrue whenFalse) (passesOn.label label)
  have jumped (target label : Nat) : holds [.jump target, .label label] :=
    passesOn.append (passesOn.jump target) (passesOn.label label)
  cases node with
  | straight node => exact passesOn.straight node
  | ifThen condition bodyLabel endLabel body =>
    exact passesOn.append (passesOn.append (tested ..) (passesOn.nodes body)) (passesOn.label _)
  | ifElse condition bodyLabel elseLabel endLabel body alternative =>
    exact passesOn.append (passesOn.append (passesOn.append (passesOn.append (tested ..)
      (passesOn.nodes body)) (jumped ..)) (passesOn.nodes alternative)) (passesOn.label _)
  | loop startLabel bodyLabel endLabel before condition body =>
    exact passesOn.append (passesOn.append (passesOn.append (passesOn.append (passesOn.label _)
      (passesOn.straights before)) (tested ..)) (passesOn.nodes body)) (jumped ..)
  | function entry name parameters body =>
    have whole := passesOn.function name parameters (passesOn.nodes body)
    exact (passesOn.append (passesOn.label entry) whole :)

/-- The property holds of all code that labelled nodes stand for. -/
theorem nodes (passesOn : PassesOn holds) (nodes : List LabelledNode) :
    holds (instructionsAll nodes) := by
  cases nodes with
  | nil => exact passesOn.nil
  | cons first rest => exact passesOn.append (passesOn.node first) (passesOn.nodes rest)

end

end PassesOn

mutual

/-- Branches and jumps go to labels that the node itself defines. -/
theorem label_mem_of_target (node : LabelledNode) {instruction : Instruction} {label : Nat}
    (target : label ∈ instruction.targetLabels) (member : instruction ∈ instructions node) :
    Instruction.label label ∈ instructions node := by
  have notStraight (straight : instruction.isStraight) : False := by
    cases instruction with
    | branch condition whenTrue whenFalse | jump label => cases straight
    | _ => cases target
  cases node with
  | straight => exact (notStraight (StraightNode.isStraight_of_mem member)).elim
  | ifThen condition bodyLabel endLabel body | function entry name parameters body =>
    have inside := label_mem_of_targetAll body target
    grind [instructions, Instruction.targetLabels]
  | ifElse condition bodyLabel elseLabel endLabel body alternative =>
    have inside := label_mem_of_targetAll body target
    have otherwise := label_mem_of_targetAll alternative target
    grind [instructions, Instruction.targetLabels]
  | loop startLabel bodyLabel endLabel before condition body =>
    have early (member : instruction ∈ before.flatMap StraightNode.instructions) :=
      notStraight (StraightNode.isStraight_of_mem_flatMap member)
    have inside := label_mem_of_targetAll body target
    simp only [instructions, mem_append, mem_cons, not_mem_nil] at member ⊢
    grind [Instruction.targetLabels]

/-- The same for several nodes. -/
theorem label_mem_of_targetAll (nodes : List LabelledNode) {instruction : Instruction}
    {label : Nat} (target : label ∈ instruction.targetLabels)
    (member : instruction ∈ instructionsAll nodes) :
    Instruction.label label ∈ instructionsAll nodes := by
  cases nodes with
  | nil => cases member
  | cons first rest =>
    exact mem_append.mpr ((mem_append.mp member).imp (label_mem_of_target first target)
      (label_mem_of_targetAll rest target))

end

end LabelledNode

end BanglaScript
