import BanglaScript.Proofs.Structure.Labelled

/-!
# Recovering labelled nodes

Recovery looks for arrangements by searching ranges of the code: the last jump
to a label, the first branch, the position of a label, the end of a function.
Where the code of labelled nodes stands, each search finds the part of the
arrangement that it is meant to find, whatever the parts are nested in.  So
recovery gives back the nodes, provided that no label is defined twice.
-/

namespace BanglaScript

open List

variable {part : List Instruction} {entry : Nat}

namespace Code

/-! ## Ends of functions -/

/-- The search for the end of a function passes over the instructions. -/
def Balanced (part : List Instruction) : Prop :=
  ∀ (code : Code) (name : String) (depth position count : Nat), code.Holds position part →
    functionEnd? code name depth position (part.length + count) =
      functionEnd? code name depth (position + part.length) count

theorem balanced_nil : Balanced [] := by
  intro code name depth position count _
  simp

theorem Balanced.append {first second : List Instruction} (firstBalanced : Balanced first)
    (secondBalanced : Balanced second) : Balanced (first ++ second) := by
  intro code name depth position count holds
  obtain ⟨holdsFirst, holdsSecond⟩ := (holds_append _ _ _ _).mp holds
  rw [length_append, Nat.add_assoc, firstBalanced code name depth position _ holdsFirst,
    secondBalanced code name depth _ count holdsSecond, Nat.add_assoc]

theorem balanced_singleton {instruction : Instruction}
    (notStart : ∀ name parameters, instruction ≠ .functionStart name parameters)
    (notEnd : ∀ name, instruction ≠ .functionEnd name) : Balanced [instruction] := by
  intro code name depth position count holds
  have found := (holds_singleton _ _ _).mp holds
  rw [length_singleton, Nat.add_comm, functionEnd?, found]
  cases instruction with
  | functionStart name parameters => exact absurd rfl (notStart name parameters)
  | functionEnd name => exact absurd rfl (notEnd name)
  | _ => rfl

theorem balanced_of_forall_isStraight
    (straight : ∀ instruction ∈ part, instruction.isStraight = true) : Balanced part := by
  induction part with
  | nil => exact balanced_nil
  | cons first rest ih =>
    obtain ⟨firstStraight, restStraight⟩ := forall_mem_cons.mp straight
    refine (balanced_singleton ?_ ?_).append (ih restStraight)
    · rintro _ _ rfl
      cases firstStraight
    · rintro _ rfl
      cases firstStraight

/-- A function inside the searched range is passed over as a whole. -/
theorem balanced_function {body : List Instruction} (bodyBalanced : Balanced body)
    (inner : String) (parameters : Nat) :
    Balanced ([.functionStart inner parameters] ++ body ++ [.functionEnd inner]) := by
  intro code name depth position count holds
  obtain ⟨holdsInner, holdsEnd⟩ := (holds_append _ _ _ _).mp holds
  obtain ⟨holdsStart, holdsBody⟩ := (holds_append _ _ _ _).mp holdsInner
  have startFound := (holds_singleton _ _ _).mp holdsStart
  have endFound := (holds_singleton _ _ _).mp holdsEnd
  simp only [length_append, length_singleton] at endFound holdsBody ⊢
  rw [show 1 + body.length + 1 + count = (body.length + (count + 1)) + 1 by omega, functionEnd?,
    startFound]
  simp only
  rw [bodyBalanced code name (depth + 1) (position + 1) (count + 1) holdsBody, functionEnd?,
    Nat.add_assoc, endFound]
  simp [Nat.add_assoc]

end Code

namespace LabelledNode

open Code

theorem passesOn_balanced : PassesOn Balanced where
  nil := balanced_nil
  append := .append
  straight _ := balanced_of_forall_isStraight fun _ => StraightNode.isStraight_of_mem
  label _ := balanced_singleton (by simp) (by simp)
  jump _ := balanced_singleton (by simp) (by simp)
  branch _ _ _ := balanced_singleton (by simp) (by simp)
  function name parameters body := balanced_function body name parameters

end LabelledNode

namespace Code

variable {code : Code} {position parameters stop result finish bodyLabel endLabel : Nat}
  {arguments : List Operand} {name : String} {condition : Operand}

/-! ## Shapes -/

/-- The operands pushed before a call are its arguments. -/
theorem pushedOperands_eq {count : Nat}
    (holds : code.Holds position (arguments.map Instruction.push))
    (called : code[position + arguments.length]? = some (.call name parameters))
    (enough : arguments.length < count) : pushedOperands code position count = arguments := by
  induction arguments generalizing position count with
  | nil =>
    cases count with
    | zero => rfl
    | succ =>
      rw [length_nil, Nat.add_zero] at called
      simp [pushedOperands, called]
  | cons first rest ih =>
    cases count with
    | zero => simp at enough
    | succ =>
      rw [map_cons, holds_cons] at holds
      obtain ⟨pushed, holdsRest⟩ := holds
      rw [length_cons, Nat.add_comm rest.length, ← Nat.add_assoc] at called
      rw [pushedOperands, pushed]
      simp only
      rw [ih holdsRest called (by simpa using enough)]

section

variable (holds : code.Holds position (StraightNode.call name arguments result).instructions)
  (inside : position + arguments.length + 2 ≤ stop)

include holds inside

/-- The shape of a call with its arguments and its result. -/
theorem callShape?_eq : code.callShape? position stop =
      some (.leaf (.call name arguments (some result)) (position + arguments.length + 2)
        (by omega)) := by
  rw [StraightNode.instructions, holds_append, holds_cons, holds_singleton, length_map] at holds
  obtain ⟨pushes, called, popped⟩ := holds
  have operands : pushedOperands code position (stop - position) = arguments :=
    pushedOperands_eq pushes called (by omega)
  unfold callShape?
  simp only [operands, called, popped]
  rw [if_pos ⟨by omega, trivial⟩, if_pos (by omega)]

theorem shapeAt_call : code.shapeAt position stop =
      .leaf (.call name arguments (some result)) (position + arguments.length + 2)
        (by omega) := by
  have shape := callShape?_eq holds inside
  unfold shapeAt
  cases arguments with
  | nil | cons =>
    rw [((holds_cons _ _ _ _).mp holds).1]
    simp only [shape, Option.getD_some]

end

/-- The shape of a conditional without an alternative: no jump stands before
its end label. -/
theorem shapeAt_ifThen (distinct : code.LabelsDistinct)
    (branched : code[position]? = some (.branch condition bodyLabel endLabel))
    (entered : code[position + 1]? = some (.label bodyLabel))
    (ended : code[finish]? = some (.label endLabel))
    (notJump : ∀ label, code[finish - 1]? ≠ some (.jump label)) (advances : position + 1 < finish)
    (inside : finish < stop) :
    code.shapeAt position stop = .ifThen condition finish advances inside := by
  have forward : forwardJump? code finish stop = none := by
    unfold forwardJump?
    split
    · rename_i exit jumped
      exact absurd jumped (notJump exit)
    · rfl
  have shape : branchShape? code position stop condition bodyLabel endLabel =
      some (.ifThen condition finish advances inside) := by
    rw [branchShape?, if_pos entered, labelPosition?_eq_some distinct ended]
    dsimp only
    rw [dif_pos ⟨advances, inside⟩]
    split <;> rename_i found <;> cases found.symm.trans forward
    rfl
  unfold shapeAt
  rw [branched]
  simp only [shape, Option.getD_some]

/-- The shape of a conditional with an alternative: a jump to the end label
stands before the label of the alternative. -/
theorem shapeAt_ifElse {middle : Nat} {elseLabel : Nat} (distinct : code.LabelsDistinct)
    (branched : code[position]? = some (.branch condition bodyLabel elseLabel))
    (entered : code[position + 1]? = some (.label bodyLabel))
    (jumped : code[middle - 1]? = some (.jump endLabel))
    (parted : code[middle]? = some (.label elseLabel))
    (ended : code[finish]? = some (.label endLabel)) (advances : position + 1 < middle)
    (ordered : middle < finish) (inside : finish < stop) :
    code.shapeAt position stop = .ifElse condition middle finish advances ordered inside := by
  have forward : forwardJump? code middle stop = some finish := by
    unfold forwardJump?
    rw [jumped]
    simp only [labelPosition?_eq_some distinct ended]
    rw [if_pos ⟨ordered, inside⟩]
  have shape : branchShape? code position stop condition bodyLabel elseLabel =
      some (.ifElse condition middle finish advances ordered inside) := by
    rw [branchShape?, if_pos entered, labelPosition?_eq_some distinct parted]
    dsimp only
    rw [dif_pos ⟨advances, by omega⟩]
    split <;> rename_i found <;> cases found.symm.trans forward
    rfl
  unfold shapeAt
  rw [branched]
  simp only [shape, Option.getD_some]

/-- The shape of a loop: the first branch behind its label tests the
condition, and no jump back follows the last one. -/
theorem shapeAt_loop {test back : Nat} {startLabel : Nat}
    (started : code[position]? = some (.label startLabel))
    (tested : code[test]? = some (.branch condition bodyLabel endLabel))
    (entered : code[test + 1]? = some (.label bodyLabel))
    (jumpedBack : code[back]? = some (.jump startLabel))
    (ended : code[back + 1]? = some (.label endLabel))
    (straightBefore : ∀ index instruction, position < index → index < test →
      code[index]? = some instruction → instruction.isStraight = true)
    (noJumpBehind : ∀ index, back < index → index < stop → code[index]? ≠ some (.jump startLabel))
    (advances : position < test) (ordered : test < back) (inside : back + 1 < stop) :
    code.shapeAt position stop =
      .loop condition test back advances ordered (Nat.lt_of_succ_lt inside) := by
  have backFound : lastPosition? (fun index => code[index]? = some (.jump startLabel))
      (position + 1) (stop - (position + 1)) = some back := by
    apply lastPosition?_eq_some (by omega) (by omega) (by simpa using jumpedBack)
    intro index later inRange
    exact decide_eq_false (noJumpBehind index later (by omega))
  have testFound : firstPosition? (fun index => code[index]?.any isBranch)
      (position + 1) (back - (position + 1)) = some test := by
    apply firstPosition?_eq_some (by omega) (by omega) (by simp [tested, isBranch])
    intro index lower upper
    cases found : code[index]? with
    | none => rfl
    | some instruction =>
      have straight := straightBefore index instruction lower upper found
      cases instruction <;> first | rfl | cases straight
  have shape : loopShape? code position stop startLabel =
      some (.loop condition test back advances ordered (Nat.lt_of_succ_lt inside)) := by
    unfold loopShape?
    split <;> rename_i found <;> cases found.symm.trans backFound
    split <;> rename_i found <;> cases found.symm.trans testFound
    simp only [tested]
    rw [if_pos ⟨entered, inside, ended⟩]
  have targeted : code.isTarget startLabel = true := by
    apply Array.any_eq_true.mpr
    obtain ⟨inRange, instruction_eq⟩ := Array.getElem?_eq_some_iff.mp jumpedBack
    refine ⟨back, inRange, ?_⟩
    simp [instruction_eq, Instruction.targetLabels]
  have notFunction : ∀ name parameters,
      code[position + 1]? ≠ some (.functionStart name parameters) := by
    intro name parameters found
    by_cases immediate : position + 1 = test
    · rw [immediate, tested] at found
      cases found
    · have straight := straightBefore (position + 1) _ (by omega) (by omega) found
      cases straight
  unfold shapeAt
  rw [started]
  simp only [if_pos (show position + 1 < stop by omega), targeted, if_true, shape, Option.getD_some]

/-- The shape of a function behind its label. -/
theorem shapeAt_function (labelled : code[position]? = some (.label entry))
    (started : code[position + 1]? = some (.functionStart name parameters))
    (found : functionEnd? code name 0 (position + 2) (stop - (position + 2)) = some finish)
    (advances : position < position + 2) (ordered : position + 2 ≤ finish)
    (inside : finish < stop) :
    code.shapeAt position stop =
      .function name parameters (position + 2) finish advances ordered inside := by
  have shape : functionShape? code position stop (position + 1) name parameters (by omega) =
      some (.function name parameters (position + 2) finish advances ordered inside) := by
    unfold functionShape?
    split <;> rename_i otherFound <;> cases otherFound.symm.trans found
    rfl
  unfold shapeAt
  rw [labelled]
  simp only [if_pos (show position + 1 < stop by omega)]
  simp only [started, shape, Option.getD_some]

end Code

namespace LabelledNode

open Code

variable {position : Nat} {nodes : List LabelledNode}

/-! ## Nodes -/

/-- A straight node is recovered first, and then the rest. -/
theorem nodes_straight {code : Code} {stop : Nat} {node : StraightNode}
    (holds : code.Holds position node.instructions)
    (inside : position + node.instructions.length ≤ stop) :
    code.nodes position stop =
      node.toNode :: code.nodes (position + node.instructions.length) stop := by
  have positive : 0 < node.instructions.length :=
    length_pos_iff.mpr node.instructions_ne_nil
  rw [Code.nodes, dif_pos (by omega)]
  cases node with
  | call name arguments result =>
    have length_eq :
        (StraightNode.call name arguments result).instructions.length =
          arguments.length + 2 := by
      simp [StraightNode.instructions]
    rw [length_eq] at inside ⊢
    rw [shapeAt_call holds (by omega)]
    simp only [StraightNode.toNode, Nat.add_assoc]
  | _ =>
    have found := (holds_singleton _ _ _).mp holds
    unfold shapeAt
    rw [found]
    rfl

/-- Straight nodes are recovered as they stand. -/
theorem nodes_straights {code : Code} {nodes : List StraightNode}
    (holds : code.Holds position (nodes.flatMap StraightNode.instructions)) :
    code.nodes position (position + (nodes.flatMap StraightNode.instructions).length) =
      nodes.map StraightNode.toNode := by
  induction nodes generalizing position with
  | nil => rw [Code.nodes, flatMap_nil, length_nil, dif_neg (by omega), map_nil]
  | cons first rest ih =>
    rw [flatMap_cons, holds_append] at holds
    obtain ⟨holdsFirst, holdsRest⟩ := holds
    rw [flatMap_cons, length_append, ← Nat.add_assoc, map_cons,
      nodes_straight holdsFirst (by omega), ih holdsRest]

/-- The code from `position` up to `stop` has no jumps to labels of `part`. -/
def NoJumpsTo (code : Code) (part : List Instruction) (position stop : Nat) : Prop :=
  ∀ label index, Instruction.label label ∈ part → position ≤ index → index < stop →
    code[index]? ≠ some (.jump label)

/-- Nodes behind a node do not jump to its labels. -/
theorem noJumpsTo_of_holds {code : Code} (distinct : code.LabelsDistinct) {rest : List LabelledNode}
    (holdsPart : code.Holds position part)
    (holdsRest : code.Holds (position + part.length) (instructionsAll rest)) :
    NoJumpsTo code part (position + part.length)
      (position + part.length + (instructionsAll rest).length) := by
  intro label index defined reached inside jumped
  have definedAgain := label_mem_of_targetAll rest (mem_singleton_self label)
    (holdsRest.mem jumped reached inside)
  obtain ⟨_, _, _, hereFound⟩ := holdsPart.exists_position defined
  obtain ⟨_, _, _, thereFound⟩ := holdsRest.exists_position definedAgain
  have same := distinct hereFound thereFound
  omega

/-- A label with labelled nodes behind it does not end in a jump. -/
theorem not_jump_at_end {code : Code} {label : Nat}
    (entered : code[position]? = some (.label label))
    (holds : code.Holds (position + 1) (instructionsAll nodes)) (target : Nat) :
    code[position + (instructionsAll nodes).length]? ≠ some (.jump target) := by
  intro jumped
  by_cases empty : instructionsAll nodes = []
  · rw [empty, length_nil, Nat.add_zero, entered] at jumped
    cases jumped
  · have positive : 0 < (instructionsAll nodes).length := length_pos_iff.mpr empty
    apply getLast?_instructionsAll_ne_jump nodes target
    rw [getLast?_eq_getElem?, ← holds _ (by omega), ← jumped]
    congr 1
    omega

/-- Recovery gives back labelled nodes where their code stands. -/
def Recovers (code : Code) (nodes : List LabelledNode) : Prop :=
  ∀ ⦃position : Nat⦄, code.Holds position (instructionsAll nodes) →
    code.nodes position (position + (instructionsAll nodes).length) = toNodes nodes

/-- Recovery gives back a labelled node first, and then the rest of the
range. -/
def RecoversFirst (code : Code) (node : LabelledNode) : Prop :=
  ∀ ⦃position stop : Nat⦄, code.Holds position (instructions node) →
    position + (instructions node).length ≤ stop →
    NoJumpsTo code (instructions node) (position + (instructions node).length) stop →
    code.nodes position stop =
      toNode node :: code.nodes (position + (instructions node).length) stop

section Recovering

variable {code : Code} {condition : Operand} {startLabel bodyLabel elseLabel endLabel : Nat}
  {body alternative : List LabelledNode}

theorem recoversFirst_ifThen (distinct : code.LabelsDistinct) (inner : Recovers code body) :
    RecoversFirst code (.ifThen condition bodyLabel endLabel body) := by
  intro position stop holds inside noJumps
  simp only [instructions, cons_append, nil_append, holds_cons, holds_append,
    holds_nil, and_true, length_cons, length_append,
    length_nil] at holds inside ⊢
  obtain ⟨branched, entered, holdsBody, ended⟩ := holds
  have bodyNodes := inner holdsBody
  have notJump := not_jump_at_end entered holdsBody
  generalize (instructionsAll body).length = length at *
  have shape := shapeAt_ifThen distinct branched entered ended
    (fun label => by
      rw [show position + 1 + 1 + length - 1 = position + 1 + length by omega]
      exact notJump label)
    (by omega) (show position + 1 + 1 + length < stop by omega)
  rw [Code.nodes, dif_pos (by omega), shape]
  simp only [toNode, bodyNodes]
  congr 2
  omega

theorem recoversFirst_ifElse (distinct : code.LabelsDistinct) (inner : Recovers code body)
    (innerElse : Recovers code alternative) :
    RecoversFirst code
      (.ifElse condition bodyLabel elseLabel endLabel body alternative) := by
  intro position stop holds inside noJumps
  simp only [instructions, cons_append, nil_append, append_assoc, holds_cons,
    holds_append, holds_nil, and_true, length_cons, length_append,
    length_nil] at holds inside ⊢
  obtain ⟨branched, entered, holdsBody, jumped, parted, holdsElse, ended⟩ := holds
  have bodyNodes := inner holdsBody
  have elseNodes := innerElse holdsElse
  generalize (instructionsAll body).length = length at *
  generalize (instructionsAll alternative).length = elseLength at *
  have shape := shapeAt_ifElse distinct branched entered
    (show code[position + 1 + 1 + length + 1 - 1]? = _ from jumped) parted ended
    (by omega) (by omega) (show position + 1 + 1 + length + 1 + 1 + elseLength < stop by omega)
  rw [Code.nodes, dif_pos (by omega), shape]
  simp only [toNode, Nat.add_sub_cancel, bodyNodes, elseNodes]
  congr 2
  omega

theorem recoversFirst_loop {before : List StraightNode} (inner : Recovers code body) :
    RecoversFirst code (.loop startLabel bodyLabel endLabel before condition body) := by
  intro position stop holds inside noJumps
  have noJumpBack := fun index => noJumps startLabel index (by simp [instructions])
  simp only [instructions, cons_append, nil_append, append_assoc, holds_cons,
    holds_append, holds_nil, and_true, length_cons, length_append,
    length_nil] at holds inside noJumpBack ⊢
  obtain ⟨started, holdsBefore, tested, entered, holdsBody, jumpedBack, ended⟩ := holds
  have bodyNodes := inner holdsBody
  have beforeNodes := nodes_straights holdsBefore
  have straightBefore : ∀ index instruction, position < index →
      index < position + 1 + (before.flatMap StraightNode.instructions).length →
      code[index]? = some instruction → instruction.isStraight = true := by
    intro index instruction reached before found
    exact StraightNode.isStraight_of_mem_flatMap (holdsBefore.mem found reached before)
  generalize (before.flatMap StraightNode.instructions).length = beforeLength at *
  generalize (instructionsAll body).length = length at *
  have shape := shapeAt_loop started tested entered jumpedBack ended straightBefore
    (fun index later inRange jumped => by
      by_cases behind : index = position + 1 + beforeLength + 1 + 1 + length + 1
      · rw [behind, ended] at jumped
        cases jumped
      · exact noJumpBack index (by omega) inRange jumped)
    (by omega) (by omega)
    (show position + 1 + beforeLength + 1 + 1 + length + 1 < stop by omega)
  rw [Code.nodes, dif_pos (by omega), shape]
  simp only [toNode, beforeNodes, bodyNodes]
  congr 2
  omega

theorem recoversFirst_function {parameters : Nat} {name : String} (inner : Recovers code body) :
    RecoversFirst code (.function entry name parameters body) := by
  intro position stop holds inside noJumps
  simp only [instructions, cons_append, nil_append, holds_cons, holds_append,
    holds_nil, and_true, length_cons, length_append,
    length_nil] at holds inside ⊢
  obtain ⟨labelled, started, holdsBody, ended⟩ := holds
  have bodyNodes := inner holdsBody
  have passed := fun count =>
    passesOn_balanced.nodes body code name 0 (position + 1 + 1) count holdsBody
  generalize (instructionsAll body).length = length at *
  have found : functionEnd? code name 0 (position + 2) (stop - (position + 2)) =
      some (position + 1 + 1 + length) := by
    have searched := passed (stop - (position + 1 + 1 + length + 1) + 1)
    rw [functionEnd?, ended] at searched
    rw [show stop - (position + 2) = length + (stop - (position + 1 + 1 + length + 1) + 1) by
      omega]
    simpa using searched
  have shape := shapeAt_function labelled started found (by omega) (by omega) (by omega)
  rw [Code.nodes, dif_pos (by omega), shape]
  simp only [toNode, bodyNodes]
  congr 2
  omega

end Recovering

mutual

theorem recoversFirst_node {code : Code} (distinct : code.LabelsDistinct) (node : LabelledNode) :
    RecoversFirst code node := by
  cases node with
  | straight => exact fun position stop holds inside _ => nodes_straight holds inside
  | ifThen condition bodyLabel endLabel body =>
    exact recoversFirst_ifThen distinct (recovers_nodes distinct body)
  | ifElse condition bodyLabel elseLabel endLabel body alternative =>
    exact recoversFirst_ifElse distinct (recovers_nodes distinct body)
      (recovers_nodes distinct alternative)
  | loop startLabel bodyLabel endLabel before condition body =>
    exact recoversFirst_loop (recovers_nodes distinct body)
  | function entry name parameters body =>
    exact recoversFirst_function (recovers_nodes distinct body)

/-- All labelled nodes are given back where their code stands. -/
theorem recovers_nodes {code : Code} (distinct : code.LabelsDistinct)
    (nodes : List LabelledNode) : Recovers code nodes := by
  intro position holds
  cases nodes with
  | nil => rw [Code.nodes, instructionsAll, length_nil, dif_neg (by omega), toNodes]
  | cons first rest =>
    rw [instructionsAll, holds_append] at holds
    obtain ⟨holdsFirst, holdsRest⟩ := holds
    rw [instructionsAll, length_append, ← Nat.add_assoc, toNodes,
      recoversFirst_node distinct first holdsFirst (by omega)
        (noJumpsTo_of_holds distinct holdsFirst holdsRest),
      recovers_nodes distinct rest holdsRest]

end

/-- Labelled nodes are recovered from their code. -/
theorem recover_instructionsAll (distinct : (definedLabels (instructionsAll nodes)).Nodup) :
    Node.recover (instructionsAll nodes) = toNodes nodes := by
  have recovered := recovers_nodes (labelsDistinct_toArray distinct) nodes
    (holds_toArray (instructionsAll nodes))
  rwa [Nat.zero_add] at recovered

end LabelledNode

end BanglaScript
