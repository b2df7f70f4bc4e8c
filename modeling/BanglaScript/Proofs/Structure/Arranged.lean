import BanglaScript.Proofs.Code.Segment
import Mathlib.Data.Fintype.EquivFin

/-!
# Writing recovered nodes back

Nodes can be written down again as instructions: conditionals, loops and
functions in the four arrangements of labels and jumps, with labels of one's
choice, and everything else as it stands.  Whatever code the nodes were
recovered from, the labels can be chosen such that the same code comes back, up
to labels that nothing goes to.

Of the instructions that can be nodes by themselves, only assignments,
operations, prints and returns are written as more than a comment.  Recovering
structure makes no nodes of others.

The recognizer searches for labels in the whole code and for jumps in the range
it works on.  What its searches have found is said once, for each shape; the
rest follows the recursion over the ranges.
-/

namespace BanglaScript

open List

/-- An instruction that is written as more than a comment. -/
def Instruction.isWritten : Instruction → Bool
  | .assign _ _ | .binary _ _ _ _ | .print _ | .giveBack _ => true
  | _ => false

mutual

/-- The instructions that are nodes by themselves are written, here and in all
parts. -/
def Node.isWritten : Node → Bool
  | .simple instruction => instruction.isWritten
  | .call _ _ _ | .unstructured _ => true
  | .ifThen _ body | .function _ _ body => Node.areWritten body
  | .ifElse _ body alternative => Node.areWritten body && Node.areWritten alternative
  | .loop before _ body => Node.areWritten before && Node.areWritten body

/-- Every one of the nodes is written. -/
def Node.areWritten : List Node → Bool
  | [] => true
  | first :: rest => first.isWritten && Node.areWritten rest

end

namespace Node

mutual

/-- The instructions are the node in its arrangement, with some labels. -/
def IsArrangedAs : Node → List Instruction → Prop
  | .simple instruction, code => code = [instruction]
  | .call name arguments result, code =>
    code = arguments.map .push ++ .call name arguments.length :: (result.map .pop).toList
  | .ifThen condition body, code =>
    ∃ bodyLabel endLabel inner, AreArrangedAs body inner ∧
      code = [.branch condition bodyLabel endLabel, .label bodyLabel] ++ inner ++
        [.label endLabel]
  | .ifElse condition body alternative, code =>
    ∃ bodyLabel elseLabel endLabel inner other,
      AreArrangedAs body inner ∧ AreArrangedAs alternative other ∧
      code = [.branch condition bodyLabel elseLabel, .label bodyLabel] ++ inner ++
        [.jump endLabel, .label elseLabel] ++ other ++ [.label endLabel]
  | .loop before condition body, code =>
    ∃ startLabel bodyLabel endLabel first inner,
      AreArrangedAs before first ∧ AreArrangedAs body inner ∧
      code = [.label startLabel] ++ first ++
        [.branch condition bodyLabel endLabel, .label bodyLabel] ++ inner ++
        [.jump startLabel, .label endLabel]
  | .function name parameters body, code =>
    ∃ entry inner, AreArrangedAs body inner ∧
      code = [.label entry, .functionStart name parameters] ++ inner ++ [.functionEnd name]
  | .unstructured instruction, code => code = [instruction]

/-- The instructions are the nodes in their arrangements, one behind the other. -/
def AreArrangedAs : List Node → List Instruction → Prop
  | [], code => code = []
  | first :: rest, code =>
    ∃ front behind, IsArrangedAs first front ∧ AreArrangedAs rest behind ∧ code = front ++ behind

end

end Node

namespace Code

open Node

variable {code : Code} {position stop middle start parameters label : Nat}
  {instruction : Instruction} {name : String}

/-! ## Ranges -/

/-- The instructions from `position` up to `stop`. -/
def between (code : Code) (position stop : Nat) : List Instruction :=
  (code.toList.drop position).take (stop - position)

@[simp]
theorem between_self (code : Code) (position : Nat) : code.between position position = [] := by
  simp [between]

theorem between_zero_size (code : Code) : code.between 0 code.size = code.toList := by
  simp [between]

theorem between_append (code : Code) (reached : position ≤ middle) (inside : middle ≤ stop) :
    code.between position stop = code.between position middle ++ code.between middle stop := by
  have counts : stop - position = (middle - position) + (stop - middle) := by omega
  rw [between, between, between, counts, take_add, drop_drop, Nat.add_sub_cancel' reached]

theorem between_cons (found : code[position]? = some instruction) (inside : position < stop) :
    code.between position stop = instruction :: code.between (position + 1) stop := by
  have split : code.toList.drop position = instruction :: code.toList.drop (position + 1) := by
    obtain ⟨bound, rfl⟩ := Array.getElem?_eq_some_iff.mp found
    rw [drop_eq_getElem_cons (by simpa using bound), Array.getElem_toList]
  rw [between, between, split, show stop - position = (stop - (position + 1)) + 1 by omega,
    take_succ_cons]

theorem between_singleton (found : code[position]? = some instruction) :
    code.between position (position + 1) = [instruction] := by
  rw [between_cons found (Nat.lt_succ_self _), between_self]

theorem between_pair {first second : Instruction} (firstFound : code[position]? = some first)
    (secondFound : code[position + 1]? = some second) :
    code.between position (position + 2) = [first, second] := by
  rw [between_cons firstFound (by omega), between_singleton secondFound]

/-- A range with an end. -/
theorem between_concat {last : Instruction} (reached : position ≤ stop)
    (found : code[stop]? = some last) :
    code.between position (stop + 1) = code.between position stop ++ [last] := by
  rw [code.between_append reached (Nat.le_succ stop), between_singleton found]

/-! ## What the searches find -/

/-- The operands that are found pushed are pushed. -/
theorem between_pushedOperands (code : Code) (position count : Nat) :
    code.between position (position + (pushedOperands code position count).length) =
      (pushedOperands code position count).map .push := by
  induction count generalizing position with
  | zero => simp [pushedOperands]
  | succ count ih =>
    rw [pushedOperands]
    split
    case h_1 value found =>
      rw [length_cons, between_cons found (by omega), map_cons, ← ih,
        Nat.add_right_comm, Nat.add_assoc]
    case h_2 => simp

/-- Around the parts of the shape its labels, branches and jumps stand, and a shape
without parts is a node that is written. -/
def Shape.Stands (code : Code) {position stop : Nat} : Shape position stop → Prop
  | .skip => ∃ label, code[position]? = some (.label label) ∧ code.isTarget label = false
  | .leaf node next _ =>
    next ≤ stop ∧ node.isWritten ∧ IsArrangedAs node (code.between position next)
  | .function name parameters start finish _ _ _ =>
    code[finish]? = some (.functionEnd name) ∧
      (start = position + 1 ∧ code[position]? = some (.functionStart name parameters) ∨
        ∃ entry, start = position + 2 ∧ code[position]? = some (.label entry) ∧
          code[position + 1]? = some (.functionStart name parameters))
  | .loop condition test back _ _ _ =>
    ∃ startLabel bodyLabel endLabel, test + 2 ≤ back ∧ back + 2 ≤ stop ∧
      code[position]? = some (.label startLabel) ∧
      code[test]? = some (.branch condition bodyLabel endLabel) ∧
      code[test + 1]? = some (.label bodyLabel) ∧
      code[back]? = some (.jump startLabel) ∧ code[back + 1]? = some (.label endLabel)
  | .ifThen condition finish _ _ =>
    ∃ bodyLabel endLabel,
      code[position]? = some (.branch condition bodyLabel endLabel) ∧
      code[position + 1]? = some (.label bodyLabel) ∧ code[finish]? = some (.label endLabel)
  | .ifElse condition middle finish _ _ _ =>
    ∃ bodyLabel elseLabel endLabel, position + 2 ≤ middle - 1 ∧
      code[position]? = some (.branch condition bodyLabel elseLabel) ∧
      code[position + 1]? = some (.label bodyLabel) ∧
      code[middle - 1]? = some (.jump endLabel) ∧ code[middle]? = some (.label elseLabel) ∧
      code[finish]? = some (.label endLabel)

section Shapes

variable {shape : Shape position stop}

theorem stands_functionShape? {reached : position ≤ start}
    (found : functionShape? code position stop start name parameters reached = some shape)
    (started : code[start]? = some (.functionStart name parameters))
    (entered : start = position ∨ ∃ entry, start = position + 1 ∧
      code[position]? = some (.label entry)) : shape.Stands code := by
  unfold functionShape? at found
  split at found
  case h_1 => cases found
  case h_2 finish ended =>
    cases found
    refine ⟨getElem?_of_functionEnd? ended, ?_⟩
    rcases entered with rfl | ⟨entry, rfl, labelled⟩
    · exact .inl ⟨rfl, started⟩
    · exact .inr ⟨entry, rfl, labelled, started⟩

theorem stands_loopShape? (found : loopShape? code position stop label = some shape)
    (labelled : code[position]? = some (.label label)) : shape.Stands code := by
  unfold loopShape? at found
  split at found
  case h_1 => cases found
  case h_2 back backFound =>
    have jumped : code[back]? = some (.jump label) :=
      of_decide_eq_true (holds_of_lastPosition? backFound)
    split at found
    case h_1 => cases found
    case h_2 test testFound =>
      have bounds := firstPosition?_bounds testFound
      split at found
      case h_1 condition whenTrue whenFalse tested =>
        split at found
        case isTrue around =>
          cases found
          obtain ⟨entered, _, ended⟩ := around
          have apart : test + 1 ≠ back := by
            rintro rfl
            cases entered.symm.trans jumped
          exact ⟨label, whenTrue, whenFalse, by omega, by omega, labelled, tested, entered, jumped,
            ended⟩
        case isFalse => cases found
      case h_2 => cases found

theorem forwardJump?_eq_some {finish : Nat} (found : forwardJump? code middle stop = some finish) :
    ∃ exit, code[middle - 1]? = some (.jump exit) ∧ code[finish]? = some (.label exit) := by
  unfold forwardJump? at found
  split at found
  case h_1 exit jumped =>
    split at found
    case h_1 target targetFound =>
      split at found
      case isTrue =>
        cases found
        exact ⟨exit, jumped, getElem?_of_labelPosition? targetFound⟩
      case isFalse => cases found
    case h_2 => cases found
  case h_2 => cases found

theorem stands_branchShape? {condition : Operand} {whenTrue whenFalse : Nat}
    (found : branchShape? code position stop condition whenTrue whenFalse = some shape)
    (branched : code[position]? = some (.branch condition whenTrue whenFalse)) :
    shape.Stands code := by
  unfold branchShape? at found
  split at found
  case isFalse => cases found
  case isTrue entered =>
    split at found
    case h_2 => cases found
    case h_1 middle middleFound =>
      have labelled := getElem?_of_labelPosition? middleFound
      split at found
      case isFalse => cases found
      case isTrue bounds =>
        split at found
        case h_1 finish forward =>
          cases found
          obtain ⟨exit, jumped, ended⟩ := forwardJump?_eq_some forward
          have apart : middle - 1 ≠ position + 1 := by
            intro same
            rw [same, entered] at jumped
            cases jumped
          exact ⟨whenTrue, whenFalse, exit, by omega, branched, entered, jumped, labelled, ended⟩
        case h_2 =>
          cases found
          exact ⟨whenTrue, whenFalse, branched, entered, labelled⟩

theorem stands_callShape? (found : callShape? code position stop = some shape) :
    shape.Stands code := by
  let arguments := pushedOperands code position (stop - position)
  have pushes : code.between position (position + arguments.length) = arguments.map .push :=
    between_pushedOperands code position (stop - position)
  simp only [callShape?] at found
  split at found
  case h_2 => cases found
  case h_1 name count called =>
    split at found
    case isFalse => cases found
    case isTrue fits =>
      obtain ⟨inside, rfl⟩ := fits
      have withoutResult : code.between position (position + arguments.length + 1) =
          arguments.map .push ++ [.call name arguments.length] := by
        rw [between_concat (by omega) called, pushes]
      split at found
      case h_1 result popped =>
        split at found
        case isTrue popInside =>
          cases found
          refine ⟨popInside, rfl, ?_⟩
          rw [between_concat (by omega) popped, withoutResult, append_assoc]
          rfl
        case isFalse =>
          cases found
          exact ⟨inside, rfl, withoutResult⟩
      case h_2 =>
        cases found
        exact ⟨inside, rfl, withoutResult⟩

/-- What is found at a position stands there. -/
theorem stands_shapeAt (reached : position < stop) (inside : stop ≤ code.size) :
    (code.shapeAt position stop).Stands code := by
  obtain ⟨instruction, found⟩ : ∃ instruction, code[position]? = some instruction :=
    ⟨_, Array.getElem?_eq_getElem (Nat.lt_of_lt_of_le reached inside)⟩
  have asItStands (node : Node) (written : node.isWritten)
      (arranged : ∀ code, IsArrangedAs node code ↔ code = [instruction]) :
      (Shape.leaf node (position + 1) (Nat.lt_succ_self _) : Shape position stop).Stands code :=
    ⟨reached, written, (arranged _).mpr (between_singleton found)⟩
  have orElse {shape? : Option (Shape position stop)}
      (stands : ∀ ⦃shape⦄, shape? = some shape → shape.Stands code) :
      (shape?.getD (.leaf (.unstructured instruction) (position + 1)
        (Nat.lt_succ_self _))).Stands code := by
    cases shape? with
    | none => exact asItStands _ rfl fun _ => Iff.rfl
    | some => exact stands rfl
  unfold shapeAt
  rw [found]
  cases instruction with
  | label label =>
    simp only
    split
    case h_1 name parameters started =>
      split at started
      case isTrue =>
        exact orElse fun shape shaped =>
          stands_functionShape? shaped started (.inr ⟨label, rfl, found⟩)
      case isFalse => cases started
    case h_2 =>
      split
      case isTrue => exact orElse fun shape shaped => stands_loopShape? shaped found
      case isFalse unaimed => exact ⟨label, found, Bool.eq_false_iff.mpr unaimed⟩
  | functionStart =>
    exact orElse fun shape shaped => stands_functionShape? shaped found (.inl rfl)
  | branch =>
    exact orElse fun shape shaped => stands_branchShape? shaped found
  | push | call => exact orElse fun shape shaped => stands_callShape? shaped
  | assign | binary | print | giveBack | pop => exact asItStands _ rfl fun _ => Iff.rfl
  | jump | functionEnd => exact asItStands _ rfl fun _ => Iff.rfl

end Shapes

/-! ## Writing back -/

/-- The instruction matters: it is not a label that nothing goes to. -/
def matters (code : Code) : Instruction → Bool
  | .label label => code.isTarget label
  | _ => true

/-- The node can be written as the code from `position` up to `next`. -/
def Arranges (code : Code) (node : Node) (position next : Nat) : Prop :=
  ∃ written, IsArrangedAs node written ∧
    written.filter code.matters = (code.between position next).filter code.matters

/-- The nodes can be written as the code from `position` up to `stop`. -/
def ArrangesAll (code : Code) (nodes : List Node) (position stop : Nat) : Prop :=
  ∃ written, AreArrangedAs nodes written ∧
    written.filter code.matters = (code.between position stop).filter code.matters

/-- There is a label that nothing goes to. -/
theorem exists_isTarget_eq_false (code : Code) : ∃ label, code.isTarget label = false := by
  obtain ⟨label, fresh⟩ :=
    Infinite.exists_notMem_finset (code.toList.flatMap Instruction.targetLabels).toFinset
  refine ⟨label, Bool.eq_false_iff.mpr fun aimed => fresh ?_⟩
  obtain ⟨index, bound, target⟩ := Array.any_eq_true.mp aimed
  rw [mem_toFinset, mem_flatMap]
  exact ⟨code[index], Array.getElem_mem_toList bound, of_decide_eq_true target⟩

section Parts

variable {next finish : Nat} {condition : Operand} {body alternative before rest : List Node}

theorem ArrangesAll.nil (empty : stop ≤ position) : code.ArrangesAll [] position stop :=
  ⟨[], rfl, by simp [between, Nat.sub_eq_zero_of_le empty]⟩

theorem ArrangesAll.cons {node : Node} (first : code.Arranges node position next)
    (behind : code.ArrangesAll rest next stop) (reached : position ≤ next) (inside : next ≤ stop) :
    code.ArrangesAll (node :: rest) position stop := by
  obtain ⟨front, frontArranged, frontSame⟩ := first
  obtain ⟨back, backArranged, backSame⟩ := behind
  refine ⟨front ++ back, ⟨front, back, frontArranged, backArranged, rfl⟩, ?_⟩
  rw [code.between_append reached inside, filter_append, filter_append, frontSame, backSame]

/-- A label that nothing goes to is passed over. -/
theorem ArrangesAll.skip (behind : code.ArrangesAll rest (position + 1) stop)
    (found : code[position]? = some (.label label)) (unaimed : code.isTarget label = false)
    (inside : position < stop) : code.ArrangesAll rest position stop := by
  obtain ⟨written, arranged, same⟩ := behind
  refine ⟨written, arranged, ?_⟩
  rw [same, between_cons found inside, filter_cons_of_neg]
  exact Bool.eq_false_iff.mp unaimed

theorem arranges_ifThen {advances : position + 1 < finish} {inside : finish < stop}
    (stands : (Shape.ifThen condition finish advances inside).Stands code)
    (inner : code.ArrangesAll body (position + 2) finish) :
    code.Arranges (.ifThen condition body) position (finish + 1) := by
  obtain ⟨bodyLabel, endLabel, branched, entered, ended⟩ := stands
  obtain ⟨written, arranged, same⟩ := inner
  refine ⟨_, ⟨bodyLabel, endLabel, written, arranged, rfl⟩, ?_⟩
  rw [between_concat (by omega) ended, code.between_append (Nat.le_add_right position 2) advances,
    between_pair branched entered]
  simp only [filter_append, same]

theorem arranges_ifElse {advances : position + 1 < middle} {ordered : middle < finish}
    {inside : finish < stop}
    (stands : (Shape.ifElse condition middle finish advances ordered inside).Stands code)
    (inner : code.ArrangesAll body (position + 2) (middle - 1))
    (innerElse : code.ArrangesAll alternative (middle + 1) finish) :
    code.Arranges (.ifElse condition body alternative) position (finish + 1) := by
  obtain ⟨bodyLabel, elseLabel, endLabel, bodyOrdered, branched, entered, jumped, parted, ended⟩ :=
    stands
  obtain ⟨middle, rfl⟩ : ∃ before, middle = before + 1 := ⟨middle - 1, by omega⟩
  obtain ⟨written, arranged, same⟩ := inner
  rw [Nat.add_sub_cancel] at bodyOrdered jumped same
  obtain ⟨other, otherArranged, otherSame⟩ := innerElse
  refine ⟨_, ⟨bodyLabel, elseLabel, endLabel, written, other, arranged, otherArranged, rfl⟩, ?_⟩
  rw [between_concat (by omega) ended, code.between_append (by omega) ordered,
    code.between_append (by omega) (Nat.le_add_right middle 2),
    code.between_append (Nat.le_add_right position 2) bodyOrdered,
    between_pair branched entered, between_pair jumped parted]
  simp only [filter_append, same, otherSame]

theorem arranges_loop {test back : Nat} {advances : position < test} {ordered : test < back}
    {inside : back < stop}
    (stands : (Shape.loop condition test back advances ordered inside).Stands code)
    (innerBefore : code.ArrangesAll before (position + 1) test)
    (inner : code.ArrangesAll body (test + 2) back) :
    code.Arranges (.loop before condition body) position (back + 2) := by
  obtain ⟨startLabel, bodyLabel, endLabel, bodyOrdered, _, started, tested, entered, jumped,
    ended⟩ := stands
  obtain ⟨first, firstArranged, firstSame⟩ := innerBefore
  obtain ⟨written, arranged, same⟩ := inner
  refine ⟨_, ⟨startLabel, bodyLabel, endLabel, first, written, firstArranged, arranged, rfl⟩, ?_⟩
  rw [code.between_append (by omega) (Nat.le_add_right back 2),
    code.between_append (by omega) bodyOrdered,
    code.between_append (by omega) (Nat.le_add_right test 2),
    code.between_append (Nat.le_succ position) advances, between_singleton started,
    between_pair tested entered, between_pair jumped ended]
  simp only [filter_append, same, firstSame]

/-- A function that has no label is given one that nothing goes to. -/
theorem arranges_function {advances : position < start} {ordered : start ≤ finish}
    {inside : finish < stop}
    (stands : (Shape.function name parameters start finish advances ordered inside).Stands code)
    (inner : code.ArrangesAll body start finish) :
    code.Arranges (.function name parameters body) position (finish + 1) := by
  obtain ⟨ended, started⟩ := stands
  obtain ⟨written, arranged, same⟩ := inner
  rcases started with ⟨rfl, startFound⟩ | ⟨entry, rfl, labelled, startFound⟩
  · obtain ⟨fresh, unaimed⟩ := code.exists_isTarget_eq_false
    refine ⟨_, ⟨fresh, written, arranged, rfl⟩, ?_⟩
    have dropped : List.filter code.matters [.label fresh, .functionStart name parameters] =
        List.filter code.matters [.functionStart name parameters] :=
      filter_cons_of_neg (Bool.eq_false_iff.mp unaimed)
    rw [between_concat (by omega) ended, code.between_append (Nat.le_succ position) ordered,
      between_singleton startFound]
    simp only [filter_append, same, dropped]
  · refine ⟨_, ⟨entry, written, arranged, rfl⟩, ?_⟩
    rw [between_concat (by omega) ended, code.between_append (Nat.le_add_right position 2) ordered,
      between_pair labelled startFound]
    simp only [filter_append, same]

end Parts

/-- The nodes of every range can be written as the range. -/
theorem arrangesAll_nodes (code : Code) (position stop : Nat) (inside : stop ≤ code.size) :
    code.ArrangesAll (code.nodes position stop) position stop := by
  fun_induction Code.nodes code position stop with
  | case7 position stop empty => exact .nil (Nat.le_of_not_lt empty)
  | case1 position stop reached shaped ih =>
    obtain ⟨_, found, unaimed⟩ := shaped ▸ stands_shapeAt reached inside
    exact (ih inside).skip found unaimed reached
  | case2 position stop reached node next advances shaped ih =>
    obtain ⟨nextInside, _, arranged⟩ := shaped ▸ stands_shapeAt reached inside
    exact .cons ⟨_, arranged, rfl⟩ (ih inside) (by omega) nextInside
  | case3 position stop reached name parameters start finish advances ordered finishInside shaped
      ihBody ih =>
      have stands := shaped ▸ stands_shapeAt reached inside
      exact .cons (arranges_function stands (ihBody (by omega))) (ih inside) (by omega) finishInside
  | case4 position stop reached condition test back advances ordered backInside shaped ihBefore
      ihBody ih =>
      have stands := shaped ▸ stands_shapeAt reached inside
      have ⟨_, _, _, _, endInside, _⟩ := stands
      exact .cons (arranges_loop stands (ihBefore (by omega)) (ihBody (by omega))) (ih inside)
        (by omega) endInside
  | case5 position stop reached condition finish advances finishInside shaped ihBody ih =>
    have stands := shaped ▸ stands_shapeAt reached inside
    exact .cons (arranges_ifThen stands (ihBody (by omega))) (ih inside) (by omega) finishInside
  | case6 position stop reached condition middle finish advances ordered finishInside shaped ihBody
      ihElse ih =>
      have stands := shaped ▸ stands_shapeAt reached inside
      exact .cons (arranges_ifElse stands (ihBody (by omega)) (ihElse (by omega))) (ih inside)
        (by omega) finishInside

/-- Structure is recovered from written instructions and calls. -/
theorem areWritten_nodes (code : Code) (position stop : Nat) (inside : stop ≤ code.size) :
    Node.areWritten (code.nodes position stop) := by
  fun_induction Code.nodes code position stop with
  | case1 position stop reached shaped ih => exact ih inside
  | case2 position stop reached node next advances shaped ih =>
    obtain ⟨_, written, _⟩ := shaped ▸ stands_shapeAt reached inside
    exact Bool.and_eq_true_iff.mpr ⟨written, ih inside⟩
  | case3 | case5 =>
    rename_i bodyIh ih
    exact Bool.and_eq_true_iff.mpr ⟨bodyIh (by omega), ih inside⟩
  | case4 | case6 =>
    rename_i firstIh secondIh ih
    exact Bool.and_eq_true_iff.mpr
      ⟨Bool.and_eq_true_iff.mpr ⟨firstIh (by omega), secondIh (by omega)⟩, ih inside⟩
  | case7 => rfl

end Code

theorem Node.areWritten_recover (code : List Instruction) : areWritten (recover code) :=
  Code.areWritten_nodes code.toArray 0 code.length (Nat.le_refl _)

/-- Whatever code the nodes are recovered from, labels can be given to their
conditionals, loops and functions such that written in the four arrangements
they are that code, once the labels that no branch or jump of the code names are
deleted from both. -/
theorem exists_arrangement_recover (code : List Instruction) :
    ∃ written, Node.AreArrangedAs (Node.recover code) written ∧
      written.filter (Code.matters code.toArray) = code.filter (Code.matters code.toArray) := by
  obtain ⟨written, arranged, same⟩ :=
    Code.arrangesAll_nodes code.toArray 0 code.length (Nat.le_refl _)
  have whole : Code.between code.toArray 0 code.length = code :=
    Code.between_zero_size code.toArray
  exact ⟨written, arranged, by rw [same, whole]⟩

end BanglaScript
