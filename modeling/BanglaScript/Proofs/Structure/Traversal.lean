import BanglaScript.Proofs.Structure.Guarded
import Mathlib.Data.List.Forall2

/-!
# Recovery loses no work

Apart from labels and from where branches go, the nodes that are recovered do
what the code does, in the order of the code.  The only instructions that the
nodes do not have are jumps: one at the end of every loop, and one between the
two parts of every conditional with an alternative.
-/

namespace BanglaScript

open List

/-- What an instruction does, apart from where a branch goes. -/
inductive Work where
  | test (condition : Operand)
  | perform (instruction : Instruction)
deriving DecidableEq

/-- The work of an instruction.  Labels do none. -/
def Instruction.work? : Instruction → Option Work
  | .label _ => none
  | .branch condition _ _ => some (.test condition)
  | instruction => some (.perform instruction)

/-- The work of a list of instructions, in order. -/
def Instruction.workOf (code : List Instruction) : List Work := code.filterMap work?

namespace Node

mutual

/-- The work of a node, in order.  Where its arrangement has a jump that the
node itself does not have, there is a gap. -/
def traversal : Node → List (Option Work)
  | .simple instruction | .unstructured instruction => instruction.work?.toList.map some
  | .call name arguments result =>
    arguments.map (fun value => some (.perform (.push value))) ++
      some (.perform (.call name arguments.length)) ::
        (result.map fun target => some (.perform (.pop target))).toList
  | .ifThen condition body => some (.test condition) :: traversalOf body
  | .ifElse condition body alternative =>
    some (.test condition) :: traversalOf body ++ none :: traversalOf alternative
  | .loop before condition body =>
    traversalOf before ++ some (.test condition) :: traversalOf body ++ [none]
  | .function name parameters body =>
    some (.perform (.functionStart name parameters)) :: traversalOf body ++
      [some (.perform (.functionEnd name))]

/-- The work of several nodes, in order. -/
def traversalOf : List Node → List (Option Work)
  | [] => []
  | first :: rest => first.traversal ++ traversalOf rest

end

end Node

/-- The work has its place in a traversal, as itself or as a jump in a gap. -/
def Work.Takes (work : Work) : Option Work → Prop
  | some own => own = work
  | none => ∃ label, work = .perform (.jump label)

/-- All of the work has its places in the traversal, in order. -/
def Fills (work : List Work) (traversal : List (Option Work)) : Prop :=
  List.Forall₂ Work.Takes work traversal

namespace Fills

theorem append {first second : List Work} {front back : List (Option Work)}
    (here : Fills first front) (there : Fills second back) :
    Fills (first ++ second) (front ++ back) :=
  rel_append here there

theorem cons {work : Work} {rest : List Work} {traversal : List (Option Work)}
    (there : Fills rest traversal) : Fills (work :: rest) (some work :: traversal) :=
  List.Forall₂.cons rfl there

/-- A jump fills a gap. -/
theorem gap {label : Nat} {rest : List Work} {traversal : List (Option Work)}
    (there : Fills rest traversal) :
    Fills (.perform (.jump label) :: rest) (none :: traversal) :=
  List.Forall₂.cons ⟨label, rfl⟩ there

/-- Work fills itself. -/
theorem refl (work : List Work) : Fills work (work.map some) :=
  forall₂_map_right_iff.mpr (forall₂_same.mpr fun _ _ => rfl)

end Fills

namespace Node

open Instruction (workOf)

theorem workOf_append (first second : List Instruction) :
    workOf (first ++ second) = workOf first ++ workOf second :=
  filterMap_append

theorem workOf_push (arguments : List Operand) :
    workOf (arguments.map .push) = arguments.map fun value => .perform (.push value) := by
  rw [workOf, filterMap_map]
  exact congrFun filterMap_eq_map' arguments

/-- Labels do no work. -/
theorem workOf_append_label (code : List Instruction) (label : Nat) :
    workOf (code ++ [.label label]) = workOf code :=
  (workOf_append code _).trans (append_nil _)

theorem fills_instruction (instruction : Instruction) :
    Fills (workOf [instruction]) (instruction.work?.toList.map some) := by
  have single : workOf [instruction] = instruction.work?.toList := by
    cases instruction <;> rfl
  rw [single]
  exact .refl _

mutual

/-- An arranged node does the work of its traversal. -/
theorem fills_traversal (node : Node) {code : List Instruction}
    (arranged : node.IsArrangedAs code) :
    Fills (workOf code) node.traversal := by
  cases node with
  | simple instruction | unstructured instruction =>
    cases arranged
    exact fills_instruction instruction
  | call name arguments result =>
    cases arranged
    rw [workOf_append, workOf_push]
    refine Fills.append ?_ (Fills.cons ?_)
    · have pushes := Fills.refl (arguments.map fun value => .perform (.push value))
      rwa [map_map] at pushes
    · cases result with
      | none => exact .nil
      | some => exact Fills.cons .nil
  | ifThen condition body =>
    obtain ⟨bodyLabel, endLabel, inner, innerArranged, rfl⟩ := arranged
    rw [workOf_append_label, workOf_append]
    exact (fills_traversalOf body innerArranged).cons
  | ifElse condition body alternative =>
    obtain ⟨bodyLabel, _, endLabel, inner, other, innerArranged, otherArranged, rfl⟩ :=
      arranged
    have back : Fills (.perform (.jump endLabel) :: workOf other)
        (none :: traversalOf alternative) := (fills_traversalOf alternative otherArranged).gap
    rw [workOf_append_label, workOf_append, workOf_append, workOf_append, append_assoc]
    exact (fills_traversalOf body innerArranged).cons.append back
  | loop before condition body =>
    obtain ⟨startLabel, _, _, first, inner, firstArranged, innerArranged, rfl⟩ :=
      arranged
    have tested : Fills (.test condition :: workOf inner)
        (some (.test condition) :: traversalOf body) :=
      (fills_traversalOf body innerArranged).cons
    rw [workOf_append, workOf_append, workOf_append, workOf_append,
      append_assoc (workOf [.label startLabel] ++ workOf first)]
    exact ((fills_traversalOf before firstArranged).append tested).append (.gap .nil)
  | function name parameters body =>
    obtain ⟨_, _, innerArranged, rfl⟩ := arranged
    rw [workOf_append, workOf_append]
    exact (fills_traversalOf body innerArranged).cons.append (.cons .nil)

theorem fills_traversalOf (nodes : List Node) {code : List Instruction}
    (arranged : AreArrangedAs nodes code) : Fills (workOf code) (traversalOf nodes) := by
  cases nodes with
  | nil =>
    cases arranged
    exact .nil
  | cons first rest =>
    obtain ⟨_, _, frontArranged, behindArranged, rfl⟩ := arranged
    rw [workOf_append]
    exact (fills_traversal first frontArranged).append (fills_traversalOf rest behindArranged)

end

end Node

/-- Labels that nothing goes to do no work. -/
theorem Code.workOf_filter_matters (code : Code) (instructions : List Instruction) :
    Instruction.workOf (instructions.filter code.matters) = Instruction.workOf instructions := by
  rw [Instruction.workOf, filterMap_filter]
  refine filterMap_congr fun instruction _ => ?_
  cases instruction with
  | label => exact ite_self none
  | _ => rfl

/-- Recovery ends on every code without reading outside of it, and every step of
it goes forward inside of its range: its guards never strike.  The nodes do the
work of the code in the order of the code, with nothing lost or done twice,
except for jumps at the ends of loops and before alternatives. -/
theorem readNodes_and_fills_recover (code : List Instruction) :
    Code.readNodes code.toArray 0 code.length = .ok (Node.recover code) ∧
      Fills (Instruction.workOf code) (Node.traversalOf (Node.recover code)) := by
  refine ⟨Code.readNodes_eq _ 0 _ (Nat.le_refl _), ?_⟩
  obtain ⟨_, arranged, same⟩ :=
    Code.arrangesAll_nodes code.toArray 0 code.length (Nat.le_refl _)
  have whole : Code.between code.toArray 0 code.length = code :=
    Code.between_zero_size code.toArray
  rw [whole] at same
  rw [← Code.workOf_filter_matters code.toArray code, ← same, Code.workOf_filter_matters]
  exact Node.fills_traversalOf _ arranged

end BanglaScript
