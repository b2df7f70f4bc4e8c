import BanglaScript.Proofs.Structure.Arranged

/-!
# Guarded recovery

Here structure is recovered once more, by plain positions and with a guard on
everything that could go wrong: reading an instruction outside of the code is a
fault, and so is a step that does not go forward, leaves its range, or has a
part outside of itself.  The guards never strike.  So recovery reads nothing
outside of the code, and every step goes forward inside of its range.
-/

namespace BanglaScript

open List Option

/-- What could go wrong while structure is recovered. -/
inductive RecoveryFault where
  /-- There is no instruction at the position. -/
  | read (position : Nat)
  /-- The step from the position leaves the range up to `stop`, or does not go
  forward. -/
  | step (position stop : Nat)
deriving DecidableEq

/-- A part of recovery that may be at fault. -/
abbrev Guarded (α : Type) := Except RecoveryFault α

theorem Guarded.ok_bind {α β : Type} (value : α) (next : α → Guarded β) :
    ((.ok value : Guarded α) >>= next) = next value :=
  rfl

namespace Code

open Guarded (ok_bind)

/-! ## Guarded searches -/

/-- The instruction at a position. -/
def read (code : Code) (position : Nat) : Guarded Instruction :=
  match code[position]? with
  | some instruction => .ok instruction
  | none => .error (.read position)

/-- The first of `count` positions from `start` on where a property holds. -/
def readFirst (code : Code) (holds : Instruction → Bool) : Nat → Nat → Guarded (Option Nat)
  | _, 0 => return none
  | start, count + 1 => do
    if holds (← code.read start) then return some start
    else code.readFirst holds (start + 1) count

/-- The last of `count` positions from `start` on where a property holds. -/
def readLast (code : Code) (holds : Instruction → Bool) : Nat → Nat → Guarded (Option Nat)
  | _, 0 => return none
  | start, count + 1 => do
    if holds (← code.read (start + count)) then return some (start + count)
    else code.readLast holds start count

/-- The end of a function among `count` positions from `start` on. -/
def readFunctionEnd (code : Code) (name : String) : Nat → Nat → Nat → Guarded (Option Nat)
  | _, _, 0 => return none
  | depth, start, count + 1 => do
    match ← code.read start with
    | .functionStart _ _ => code.readFunctionEnd name (depth + 1) (start + 1) count
    | .functionEnd closing =>
      if 0 < depth then code.readFunctionEnd name (depth - 1) (start + 1) count
      else if closing = name then return some start
      else code.readFunctionEnd name depth (start + 1) count
    | _ => code.readFunctionEnd name depth (start + 1) count

/-- The operands pushed one after the other among `count` positions from
`start` on. -/
def readPushed (code : Code) : Nat → Nat → Guarded (List Operand)
  | _, 0 => return []
  | start, count + 1 => do
    match ← code.read start with
    | .push value => return value :: (← code.readPushed (start + 1) count)
    | _ => return []

/-- The label stands at a position inside of a range. -/
def readsLabel (code : Code) (position stop label : Nat) : Guarded Bool :=
  if position < stop then return (← code.read position) = .label label else return false

section Searches

variable {code : Code}

theorem read_eq {position : Nat} {instruction : Instruction}
    (found : code[position]? = some instruction) : code.read position = .ok instruction := by
  rw [read, found]

/-- There is an instruction at every position inside of the code. -/
theorem exists_getElem? {position : Nat} (inside : position < code.size) :
    ∃ instruction, code[position]? = some instruction :=
  ⟨_, Array.getElem?_eq_getElem inside⟩

section

variable (matching : Nat → Bool) {holds : Instruction → Bool}
  (same : ∀ position instruction, code[position]? = some instruction →
    matching position = holds instruction)
  {start count : Nat} (inside : start + count ≤ code.size)

include matching same inside

theorem readFirst_eq :
    code.readFirst holds start count = .ok (firstPosition? matching start count) := by
  induction count generalizing start with
  | zero => rfl
  | succ count ih =>
    obtain ⟨instruction, found⟩ := exists_getElem? (show start < code.size by omega)
    rw [readFirst, firstPosition?, read_eq found, ok_bind, same start instruction found]
    split
    · rfl
    · exact ih (by omega)

theorem readLast_eq :
    code.readLast holds start count = .ok (lastPosition? matching start count) := by
  induction count with
  | zero => rfl
  | succ count ih =>
    obtain ⟨instruction, found⟩ := exists_getElem? (show start + count < code.size by omega)
    rw [readLast, lastPosition?, read_eq found, ok_bind, same _ instruction found]
    split
    · rfl
    · exact ih (by omega)

end

theorem readFunctionEnd_eq (name : String) {depth start count : Nat}
    (inside : start + count ≤ code.size) :
    code.readFunctionEnd name depth start count =
      .ok (functionEnd? code name depth start count) := by
  induction count generalizing depth start with
  | zero => rfl
  | succ count ih =>
    obtain ⟨instruction, found⟩ := exists_getElem? (show start < code.size by omega)
    have further (depth : Nat) := @ih depth (start + 1) (by omega)
    rw [readFunctionEnd, functionEnd?, read_eq found, ok_bind, found]
    cases instruction with
    | functionEnd =>
      dsimp only
      split
      · exact further _
      · split
        · rfl
        · exact further _
    | _ => exact further _

theorem readPushed_eq {start count : Nat} (inside : start + count ≤ code.size) :
    code.readPushed start count = .ok (pushedOperands code start count) := by
  induction count generalizing start with
  | zero => rfl
  | succ count ih =>
    obtain ⟨instruction, found⟩ := exists_getElem? (show start < code.size by omega)
    rw [readPushed, pushedOperands, read_eq found, ok_bind, found]
    cases instruction with
    | push =>
      dsimp only
      rw [ih (by omega), ok_bind]
      rfl
    | _ => rfl

theorem readsLabel_eq {stop : Nat} (inside : stop ≤ code.size) (position label : Nat) :
    code.readsLabel position stop label =
      .ok (position < stop ∧ code[position]? = some (.label label)) := by
  rw [readsLabel]
  split
  case isTrue within =>
    obtain ⟨_, found⟩ := exists_getElem? (Nat.lt_of_lt_of_le within inside)
    rw [read_eq found, ok_bind, found]
    simp only [within, true_and, Option.some.injEq]
    rfl
  case isFalse outside =>
    simp only [outside, false_and, decide_false]
    rfl

end Searches

/-! ## Guarded steps -/

/-- The positions of an arrangement, with nothing said about them. -/
inductive Extent where
  | skip
  | leaf (node : Node) (next : Nat)
  | function (name : String) (parameters start finish : Nat)
  | loop (condition : Operand) (test back : Nat)
  | ifThen (condition : Operand) (finish : Nat)
  | ifElse (condition : Operand) (middle finish : Nat)

namespace Extent

/-- The position behind the arrangement that starts at `position`. -/
def next (position : Nat) : Extent → Nat
  | skip => position + 1
  | leaf _ next => next
  | function _ _ _ finish => finish + 1
  | loop _ _ back => back + 2
  | ifThen _ finish => finish + 1
  | ifElse _ _ finish => finish + 1

/-- The ranges of the parts of the arrangement. -/
def parts (position : Nat) : Extent → List (Nat × Nat)
  | skip | leaf _ _ => []
  | function _ _ start finish => [(start, finish)]
  | loop _ test back => [(position + 1, test), (test + 2, back)]
  | ifThen _ finish => [(position + 2, finish)]
  | ifElse _ middle finish => [(position + 2, middle - 1), (middle + 1, finish)]

/-- The step goes forward and stays in the range, and its parts lie inside of
it. -/
def IsInside (extent : Extent) (position stop : Nat) : Prop :=
  position < extent.next position ∧ extent.next position ≤ stop ∧
    ∀ part ∈ extent.parts position,
      position < part.1 ∧ part.1 ≤ part.2 ∧ part.2 < extent.next position

instance (extent : Extent) (position stop : Nat) : Decidable (extent.IsInside position stop) :=
  inferInstanceAs (Decidable (_ ∧ _ ∧ _))

namespace IsInside

variable {extent : Extent} {position stop : Nat}

/-- What is left of the range behind the step is shorter. -/
theorem rest_lt (inside : extent.IsInside position stop) :
    stop - extent.next position < stop - position := by
  obtain ⟨_, _, _⟩ := inside
  omega

/-- Every part of the step is shorter than the range. -/
theorem part_lt (inside : extent.IsInside position stop) {part : Nat × Nat}
    (member : part ∈ extent.parts position) : part.2 - part.1 < stop - position := by
  obtain ⟨_, _, parts⟩ := inside
  have bounds := parts part member
  omega

end IsInside

end Extent

/-- The positions of a shape. -/
def Shape.extent {position stop : Nat} : Shape position stop → Extent
  | .skip => .skip
  | .leaf node next _ => .leaf node next
  | .function name parameters start finish _ _ _ => .function name parameters start finish
  | .loop condition test back _ _ _ => .loop condition test back
  | .ifThen condition finish _ _ => .ifThen condition finish
  | .ifElse condition middle finish _ _ _ => .ifElse condition middle finish

/-- The function whose start stands at `start`. -/
def readFunction (code : Code) (stop start : Nat) (name : String) (parameters : Nat) :
    Guarded (Option Extent) := do
  match ← code.readFunctionEnd name 0 (start + 1) (stop - (start + 1)) with
  | none => return none
  | some finish => return some (.function name parameters (start + 1) finish)

/-- The loop that starts with a label at `position`. -/
def readLoop (code : Code) (position stop label : Nat) : Guarded (Option Extent) := do
  match ← code.readLast (fun instruction => instruction = .jump label) (position + 1)
      (stop - (position + 1)) with
  | none => return none
  | some back =>
    match ← code.readFirst isBranch (position + 1) (back - (position + 1)) with
    | none => return none
    | some test =>
      match ← code.read test with
      | .branch condition whenTrue whenFalse =>
        let exits ← code.readsLabel (back + 1) stop whenFalse
        if code[test + 1]? = some (.label whenTrue) ∧ exits then
          return some (.loop condition test back)
        else
          return none
      | _ => return none

/-- The conditional that starts with a branch at `position`. -/
def readBranch (code : Code) (position stop : Nat) (condition : Operand)
    (whenTrue whenFalse : Nat) : Guarded (Option Extent) :=
  if code[position + 1]? = some (.label whenTrue) then
    match code.labelPosition? whenFalse with
    | none => return none
    | some middle =>
      if position + 1 < middle ∧ middle < stop then do
        match ← code.read (middle - 1) with
        | .jump exit =>
          match code.labelPosition? exit with
          | some finish =>
            if middle < finish ∧ finish < stop then
              return some (.ifElse condition middle finish)
            else
              return some (.ifThen condition middle)
          | none => return some (.ifThen condition middle)
        | _ => return some (.ifThen condition middle)
      else
        return none
  else
    return none

/-- The call that starts at `position`. -/
def readCall (code : Code) (position stop : Nat) : Guarded (Option Extent) := do
  let arguments ← code.readPushed position (stop - position)
  let callPosition := position + arguments.length
  match code[callPosition]? with
  | some (.call name count) =>
    if callPosition < stop ∧ count = arguments.length then
      match code[callPosition + 1]? with
      | some (.pop result) =>
        if callPosition + 1 < stop then
          return some (.leaf (.call name arguments (some result)) (callPosition + 2))
        else
          return some (.leaf (.call name arguments none) (callPosition + 1))
      | _ => return some (.leaf (.call name arguments none) (callPosition + 1))
    else
      return none
  | _ => return none

/-- The arrangement that starts at a position. -/
def readShape (code : Code) (position stop : Nat) : Guarded Extent := do
  let instruction ← code.read position
  let asItStands : Extent := .leaf (.unstructured instruction) (position + 1)
  match instruction with
  | .label label =>
    match (if position + 1 < stop then code[position + 1]? else none) with
    | some (.functionStart name parameters) =>
      return (← code.readFunction stop (position + 1) name parameters).getD asItStands
    | _ =>
      if code.isTarget label then
        return (← code.readLoop position stop label).getD asItStands
      else
        return .skip
  | .functionStart name parameters =>
    return (← code.readFunction stop position name parameters).getD asItStands
  | .branch condition whenTrue whenFalse =>
    return (← code.readBranch position stop condition whenTrue whenFalse).getD asItStands
  | .push _ | .call _ _ => return (← code.readCall position stop).getD asItStands
  | .assign _ _ | .binary _ _ _ _ | .print _ | .giveBack _ =>
    return .leaf (.simple instruction) (position + 1)
  | .jump _ | .functionEnd _ | .pop _ => return asItStands

/-- The nodes of the range from `position` up to `stop`. -/
def readNodes (code : Code) (position stop : Nat) : Guarded (List Node) :=
  if position < stop then do
    let extent ← code.readShape position stop
    if inside : extent.IsInside position stop then
      match extent, inside with
      | .skip, _ => code.readNodes (position + 1) stop
      | .leaf node next, _ => return node :: (← code.readNodes next stop)
      | .function name parameters start finish, _ =>
        let body ← code.readNodes start finish
        return .function name parameters body :: (← code.readNodes (finish + 1) stop)
      | .loop condition test back, _ =>
        let before ← code.readNodes (position + 1) test
        let body ← code.readNodes (test + 2) back
        return .loop before condition body :: (← code.readNodes (back + 2) stop)
      | .ifThen condition finish, _ =>
        let body ← code.readNodes (position + 2) finish
        return .ifThen condition body :: (← code.readNodes (finish + 1) stop)
      | .ifElse condition middle finish, _ =>
        let body ← code.readNodes (position + 2) (middle - 1)
        let alternative ← code.readNodes (middle + 1) finish
        return .ifElse condition body alternative :: (← code.readNodes (finish + 1) stop)
    else
      throw (.step position stop)
  else
    return []
termination_by stop - position
decreasing_by
  all_goals first
    | exact Extent.IsInside.rest_lt ‹_›
    | exact Extent.IsInside.part_lt ‹_› (mem_cons_self)
    | exact Extent.IsInside.part_lt ‹_› (mem_cons_of_mem _ mem_cons_self)

/-! ## The guards never strike -/

section Steps

variable {code : Code} {position stop : Nat}

theorem readFunction_eq {start : Nat} (reached : position ≤ start) (started : start < stop)
    (inside : stop ≤ code.size) (name : String) (parameters : Nat) :
    code.readFunction stop start name parameters =
      .ok ((functionShape? code position stop start name parameters reached).map Shape.extent) := by
  have ended : code.readFunctionEnd name 0 (start + 1) (stop - (start + 1)) = _ :=
    readFunctionEnd_eq name (by omega)
  unfold functionShape?
  split <;> rename_i found <;> rw [readFunction, ended.trans (congrArg _ found)] <;> rfl

theorem readLoop_eq (reached : position < stop) (inside : stop ≤ code.size) (label : Nat) :
    code.readLoop position stop label =
      .ok ((loopShape? code position stop label).map Shape.extent) := by
  have backRead : code.readLast (fun instruction => instruction = .jump label) (position + 1)
      (stop - (position + 1)) = _ :=
    readLast_eq (fun index => code[index]? = some (.jump label))
      (fun _ _ found => by simp only [found, Option.some.injEq]) (by omega)
  unfold loopShape?
  split
  case h_1 found =>
    rw [readLoop, backRead, found]
    rfl
  case h_2 back foundBack =>
    have backBounds := lastPosition?_bounds foundBack
    have testRead : code.readFirst isBranch (position + 1) (back - (position + 1)) = _ :=
      readFirst_eq (fun index => code[index]?.any isBranch) (fun _ _ found => by rw [found]; rfl)
        (by omega)
    rw [foundBack] at backRead
    split
    case h_1 found =>
      rw [readLoop, backRead, ok_bind]
      dsimp only
      rw [testRead.trans (congrArg _ found)]
      rfl
    case h_2 test foundTest =>
      have testBounds := firstPosition?_bounds foundTest
      obtain ⟨instruction, found⟩ := exists_getElem? (show test < code.size by omega)
      rw [readLoop, backRead, ok_bind]
      dsimp only
      rw [testRead.trans (congrArg _ foundTest), ok_bind]
      dsimp only
      rw [read_eq found, ok_bind, found]
      cases instruction with
      | branch =>
        dsimp only
        rw [readsLabel_eq inside, ok_bind]
        simp only [decide_eq_true_eq]
        split <;> rfl
      | _ => rfl

theorem extent_branchShape? (condition : Operand) (whenTrue whenFalse : Nat) :
    (branchShape? code position stop condition whenTrue whenFalse).map Shape.extent =
      if code[position + 1]? = some (.label whenTrue) then
        (code.labelPosition? whenFalse).bind fun middle =>
          if position + 1 < middle ∧ middle < stop then
            some ((forwardJump? code middle stop).elim (.ifThen condition middle)
              (.ifElse condition middle))
          else
            none
      else
        none := by
  unfold branchShape?
  split
  case isFalse => rfl
  case isTrue =>
    split
    case h_2 found => rw [found]; rfl
    case h_1 middle found =>
      rw [found, bind_some]
      split
      case isFalse => rfl
      case isTrue =>
        split
        case h_1 finish found =>
          change some (Extent.ifElse condition middle finish) = _
          rw [found, elim_some]
        case h_2 found => rw [found]; rfl

theorem readBranch_eq (inside : stop ≤ code.size) (condition : Operand)
    (whenTrue whenFalse : Nat) :
    code.readBranch position stop condition whenTrue whenFalse =
      .ok ((branchShape? code position stop condition whenTrue whenFalse).map Shape.extent) := by
  rw [readBranch, extent_branchShape?]
  split
  case isFalse => rfl
  case isTrue =>
    cases code.labelPosition? whenFalse with
    | none => rfl
    | some middle =>
      dsimp only [bind_some]
      split
      case isFalse => rfl
      case isTrue bounds =>
        obtain ⟨instruction, found⟩ := exists_getElem? (show middle - 1 < code.size by omega)
        rw [read_eq found, ok_bind, forwardJump?, found]
        cases instruction with
        | jump exit =>
          dsimp only
          cases code.labelPosition? exit with
          | none => rfl
          | some => dsimp only; split <;> rfl
        | _ => rfl

section

variable (reached : position < stop) (inside : stop ≤ code.size)

include reached inside

theorem readCall_eq :
    code.readCall position stop = .ok ((callShape? code position stop).map Shape.extent) := by
  rw [readCall, callShape?, readPushed_eq (by omega), ok_bind]
  dsimp only
  cases code[position + (pushedOperands code position (stop - position)).length]? with
  | none => rfl
  | some instruction =>
    cases instruction with
    | call =>
      dsimp only
      split
      case isFalse => rfl
      case isTrue =>
        cases code[position + (pushedOperands code position (stop - position)).length + 1]? with
        | none => rfl
        | some behind =>
          cases behind with
          | pop => dsimp only; split <;> rfl
          | _ => rfl
    | _ => rfl

/-- A guarded step finds the shape. -/
theorem readShape_eq : code.readShape position stop = .ok (code.shapeAt position stop).extent := by
  obtain ⟨instruction, found⟩ := exists_getElem? (Nat.lt_of_lt_of_le reached inside)
  have orElse (shape? : Option (Shape position stop)) :
      (return (← (.ok (shape?.map Shape.extent) : Guarded (Option Extent))).getD
          (.leaf (.unstructured instruction) (position + 1)) : Guarded Extent) =
        .ok (shape?.getD (.leaf (.unstructured instruction) (position + 1)
          (Nat.lt_succ_self _))).extent := by
    cases shape? <;> rfl
  rw [readShape, shapeAt, read_eq found, ok_bind, found]
  cases instruction with
  | label label =>
    have asLoop : (if code.isTarget label then do
          return (← code.readLoop position stop label).getD
            (.leaf (.unstructured (.label label)) (position + 1))
        else return .skip : Guarded Extent) =
        .ok (if code.isTarget label then
          (loopShape? code position stop label).getD
            (.leaf (.unstructured (.label label)) (position + 1) (Nat.lt_succ_self _))
          else .skip).extent := by
      split
      · rw [readLoop_eq reached inside, orElse]
      · rfl
    dsimp only
    cases next : (if position + 1 < stop then code[position + 1]? else none) with
    | none => exact asLoop
    | some behind =>
      cases behind with
      | functionStart =>
        have within : position + 1 < stop := by
          by_contra outside
          rw [if_neg outside] at next
          cases next
        dsimp only
        rw [readFunction_eq (Nat.le_succ position) within inside, orElse]
      | _ => exact asLoop
  | functionStart =>
    dsimp only
    rw [readFunction_eq (Nat.le_refl position) reached inside, orElse]
  | branch =>
    dsimp only
    rw [readBranch_eq inside, orElse]
  | push | call =>
    dsimp only
    rw [readCall_eq reached inside, orElse]
  | _ => rfl

/-- Every step goes forward inside of its range. -/
theorem isInside_shapeAt : (code.shapeAt position stop).extent.IsInside position stop := by
  have stands := stands_shapeAt reached inside
  cases shaped : code.shapeAt position stop with
  | skip => exact ⟨Nat.lt_succ_self _, reached, forall_mem_nil _⟩
  | leaf node next advances =>
    rw [shaped] at stands
    exact ⟨advances, stands.1, forall_mem_nil _⟩
  | function | ifThen =>
    refine ⟨?_, ?_, forall_mem_singleton.mpr ?_⟩ <;>
      dsimp only [Shape.extent, Extent.next] <;> omega
  | loop =>
    rw [shaped] at stands
    obtain ⟨_, _, _, bodyOrdered, _, _⟩ := stands
    refine ⟨?_, ?_, forall_mem_cons.mpr ⟨?_, forall_mem_singleton.mpr ?_⟩⟩ <;>
      dsimp only [Shape.extent, Extent.next] <;> omega
  | ifElse =>
    rw [shaped] at stands
    obtain ⟨_, _, _, _, _⟩ := stands
    refine ⟨?_, ?_, forall_mem_cons.mpr ⟨?_, forall_mem_singleton.mpr ?_⟩⟩ <;>
      dsimp only [Shape.extent, Extent.next] <;> omega

end

/-- Guarded recovery of a range inside of the code results in the nodes of the
range. -/
theorem readNodes_eq (code : Code) (position stop : Nat) (inside : stop ≤ code.size) :
    code.readNodes position stop = .ok (code.nodes position stop) := by
  fun_induction Code.nodes code position stop with
    try (
      have bounds := shaped ▸ isInside_shapeAt reached inside
      rw [readNodes, if_pos reached, readShape_eq reached inside, shaped, ok_bind, dif_pos bounds])
  | case1 position stop reached shaped ih =>
    exact ih inside
  | case2 position stop reached node next advances shaped ih =>
    dsimp only [Shape.extent]
    rw [ih inside]
    rfl
  | case3 position stop reached _ _ _ _ _ _ _ shaped ihBody ih
  | case5 position stop reached _ _ _ _ shaped ihBody ih =>
    dsimp only [Shape.extent]
    rw [ihBody (by omega), ih inside]
    rfl
  | case4 position stop reached _ _ _ _ _ _ shaped ihFirst ihSecond ih
  | case6 position stop reached _ _ _ _ _ _ shaped ihFirst ihSecond ih =>
    dsimp only [Shape.extent]
    rw [ihFirst (by omega), ihSecond (by omega), ih inside]
    rfl
  | case7 position stop empty =>
    rw [readNodes, if_neg empty]
    rfl

end Steps

end Code

end BanglaScript
