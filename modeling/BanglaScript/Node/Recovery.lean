import BanglaScript.Node

/-!
# Recovering structure

Lowering produces labels and jumps in four arrangements only:

* a conditional: a branch, the label of its body, the body, the end label;
* a conditional with an alternative: the body ends in a jump over the label
  and the code of the alternative to the end label;
* a loop: a label, the code of the condition, a branch, the label of the body,
  the body, a jump back to the first label, the end label;
* a function: a label, the start, the body and the end.

`shapeAt` finds out which arrangement starts at a position by searching the
range it stands in, and `nodes` recurses into the parts.  The positions of a
shape carry the bounds that keep every part inside the range, so the recursion
ends on every code.
-/

namespace BanglaScript

/-- Code with random access. -/
abbrev Code := Array Instruction

namespace Code

/-! ## Searching -/

/-- The first of `count` positions from `start` on where a property holds. -/
def firstPosition? (holds : Nat → Bool) : Nat → Nat → Option Nat
  | _, 0 => none
  | start, count + 1 =>
    if holds start then some start else firstPosition? holds (start + 1) count

/-- The last of `count` positions from `start` on where a property holds. -/
def lastPosition? (holds : Nat → Bool) : Nat → Nat → Option Nat
  | _, 0 => none
  | start, count + 1 =>
    if holds (start + count) then some (start + count) else lastPosition? holds start count

/-- A first position lies in the searched range. -/
theorem firstPosition?_bounds {holds : Nat → Bool} {start count position : Nat}
    (found : firstPosition? holds start count = some position) :
    start ≤ position ∧ position < start + count := by
  induction count generalizing start with
  | zero => simp [firstPosition?] at found
  | succ count ih =>
    simp only [firstPosition?] at found
    split at found
    · cases found
      omega
    · have bounds := ih found
      omega

/-- A last position lies in the searched range. -/
theorem lastPosition?_bounds {holds : Nat → Bool} {start count position : Nat}
    (found : lastPosition? holds start count = some position) :
    start ≤ position ∧ position < start + count := by
  induction count with
  | zero => simp [lastPosition?] at found
  | succ count ih =>
    simp only [lastPosition?] at found
    split at found
    · cases found
      omega
    · have bounds := ih found
      omega

/-- The position of a label; where it is defined more than once, the last. -/
def labelPosition? (code : Code) (label : Nat) : Option Nat :=
  lastPosition? (fun position => code[position]? = some (.label label)) 0 code.size

/-- Some branch or jump goes to the label. -/
def isTarget (code : Code) (label : Nat) : Bool :=
  code.any fun instruction => label ∈ instruction.targetLabels

/-- The end of a function among `count` positions from `start` on.  Functions
in between are skipped as a whole; at the outermost level only an end with the
function's name counts. -/
def functionEnd? (code : Code) (name : String) : Nat → Nat → Nat → Option Nat
  | _, _, 0 => none
  | depth, start, count + 1 =>
    match code[start]? with
    | some (.functionStart _ _) => functionEnd? code name (depth + 1) (start + 1) count
    | some (.functionEnd closing) =>
      if 0 < depth then functionEnd? code name (depth - 1) (start + 1) count
      else if closing = name then some start
      else functionEnd? code name depth (start + 1) count
    | _ => functionEnd? code name depth (start + 1) count

/-- The end of a function lies in the searched range. -/
theorem functionEnd?_bounds {code : Code} {name : String} {depth start count position : Nat}
    (found : functionEnd? code name depth start count = some position) :
    start ≤ position ∧ position < start + count := by
  induction count generalizing depth start with
  | zero => simp [functionEnd?] at found
  | succ count ih =>
    simp only [functionEnd?] at found
    split at found
    · have bounds := ih found
      omega
    · split at found
      · have bounds := ih found
        omega
      · split at found
        · cases found
          omega
        · have bounds := ih found
          omega
    · have bounds := ih found
      omega

/-- The operands pushed one after the other among `count` positions from
`start` on. -/
def pushedOperands (code : Code) : Nat → Nat → List Operand
  | _, 0 => []
  | start, count + 1 =>
    match code[start]? with
    | some (.push value) => value :: pushedOperands code (start + 1) count
    | _ => []

/-! ## Shapes -/

/-- The arrangement that starts at `position` inside a range up to `stop`. -/
inductive Shape (position stop : Nat) where
  /-- A label without meaning. -/
  | skip
  /-- A node without parts, up to `next`. -/
  | leaf (node : Node) (next : Nat) (advances : position < next)
  /-- A function whose body runs from `start` to its end. -/
  | function (name : String) (parameters : Nat) (start finish : Nat)
      (advances : position < start) (ordered : start ≤ finish) (inside : finish < stop)
  /-- A loop with its test and its jump back. -/
  | loop (condition : Operand) (test back : Nat)
      (advances : position < test) (ordered : test < back) (inside : back < stop)
  /-- A conditional up to its end label. -/
  | ifThen (condition : Operand) (finish : Nat)
      (advances : position + 1 < finish) (inside : finish < stop)
  /-- A conditional with the label of its alternative and its end label. -/
  | ifElse (condition : Operand) (middle finish : Nat)
      (advances : position + 1 < middle) (ordered : middle < finish) (inside : finish < stop)

/-- The function whose start stands at `start`. -/
def functionShape? (code : Code) (position stop start : Nat) (name : String)
    (parameters : Nat) (reached : position ≤ start) : Option (Shape position stop) :=
  match found : functionEnd? code name 0 (start + 1) (stop - (start + 1)) with
  | none => none
  | some finish =>
    have bounds := functionEnd?_bounds found
    some (.function name parameters (start + 1) finish (by omega) (by omega) (by omega))

/-- The instruction is a branch. -/
def isBranch : Instruction → Bool
  | .branch _ _ _ => true
  | _ => false

/-- The loop that starts with a label at `position`: its last jump back and
the first branch before it.  The body must follow the branch, and the end
label the jump back. -/
def loopShape? (code : Code) (position stop label : Nat) : Option (Shape position stop) :=
  match foundBack : lastPosition? (fun index => code[index]? = some (.jump label))
      (position + 1) (stop - (position + 1)) with
  | none => none
  | some back =>
    match foundTest : firstPosition? (fun index => code[index]?.any isBranch)
        (position + 1) (back - (position + 1)) with
    | none => none
    | some test =>
      have backBounds := lastPosition?_bounds foundBack
      have testBounds := firstPosition?_bounds foundTest
      match code[test]? with
      | some (.branch condition whenTrue whenFalse) =>
        if code[test + 1]? = some (.label whenTrue) ∧ back + 1 < stop ∧
            code[back + 1]? = some (.label whenFalse) then
          some (.loop condition test back (by omega) (by omega) (by omega))
        else
          none
      | _ => none

/-- The jump right before the label of an alternative, if it goes forward to a
label inside the range. -/
def forwardJump? (code : Code) (middle stop : Nat) : Option Nat :=
  match code[middle - 1]? with
  | some (.jump exit) =>
    match code.labelPosition? exit with
    | some finish => if middle < finish ∧ finish < stop then some finish else none
    | none => none
  | _ => none

/-- A forward jump goes behind the label of the alternative, inside the range. -/
theorem forwardJump?_bounds {code : Code} {middle stop finish : Nat}
    (found : forwardJump? code middle stop = some finish) : middle < finish ∧ finish < stop := by
  unfold forwardJump? at found
  split at found
  · split at found
    · split at found
      · rename_i bounds
        cases found
        exact bounds
      · cases found
    · cases found
  · cases found

/-- The conditional that starts with a branch at `position`.  It has an
alternative exactly if a forward jump stands before the label for false. -/
def branchShape? (code : Code) (position stop : Nat) (condition : Operand)
    (whenTrue whenFalse : Nat) : Option (Shape position stop) :=
  if code[position + 1]? = some (.label whenTrue) then
    match code.labelPosition? whenFalse with
    | some middle =>
      if bounds : position + 1 < middle ∧ middle < stop then
        match found : forwardJump? code middle stop with
        | some finish =>
          have exitBounds := forwardJump?_bounds found
          some (.ifElse condition middle finish (by omega) (by omega) (by omega))
        | none => some (.ifThen condition middle (by omega) (by omega))
      else
        none
    | none => none
  else
    none

/-- The call that starts at `position`: as many pushes as the call has
arguments, the call, and the pop of its result if there is one. -/
def callShape? (code : Code) (position stop : Nat) : Option (Shape position stop) :=
  let arguments := pushedOperands code position (stop - position)
  let callPosition := position + arguments.length
  match code[callPosition]? with
  | some (.call name count) =>
    if callPosition < stop ∧ count = arguments.length then
      match code[callPosition + 1]? with
      | some (.pop result) =>
        if callPosition + 1 < stop then
          some (.leaf (.call name arguments (some result)) (callPosition + 2) (by omega))
        else
          some (.leaf (.call name arguments none) (callPosition + 1) (by omega))
      | _ => some (.leaf (.call name arguments none) (callPosition + 1) (by omega))
    else
      none
  | _ => none

/-- The shape that starts at a position.  What fits no arrangement is a node
by itself. -/
def shapeAt (code : Code) (position stop : Nat) : Shape position stop :=
  match code[position]? with
  | none => .skip
  | some instruction =>
    let asItStands : Shape position stop :=
      .leaf (.unstructured instruction) (position + 1) (by omega)
    let asSimple : Shape position stop :=
      .leaf (.simple instruction) (position + 1) (by omega)
    match instruction with
    | .label label =>
      match (if position + 1 < stop then code[position + 1]? else none) with
      | some (.functionStart name parameters) =>
        (functionShape? code position stop (position + 1) name parameters
          (by omega)).getD asItStands
      | _ =>
        if code.isTarget label then (loopShape? code position stop label).getD asItStands
        else .skip
    | .functionStart name parameters =>
      (functionShape? code position stop position name parameters (by omega)).getD asItStands
    | .branch condition whenTrue whenFalse =>
      (branchShape? code position stop condition whenTrue whenFalse).getD asItStands
    | .push _ => (callShape? code position stop).getD asItStands
    | .call _ _ => (callShape? code position stop).getD asItStands
    | .assign _ _ => asSimple
    | .binary _ _ _ _ => asSimple
    | .print _ => asSimple
    | .giveBack _ => asSimple
    | .jump _ => asItStands
    | .functionEnd _ => asItStands
    | .pop _ => asItStands

/-! ## Nodes -/

/-- The nodes of the range from `position` up to `stop`. -/
def nodes (code : Code) (position stop : Nat) : List Node :=
  if _ : position < stop then
    match code.shapeAt position stop with
    | .skip => code.nodes (position + 1) stop
    | .leaf node next _ => node :: code.nodes next stop
    | .function name parameters start finish _ _ _ =>
      .function name parameters (code.nodes start finish) :: code.nodes (finish + 1) stop
    | .loop condition test back _ _ _ =>
      .loop (code.nodes (position + 1) test) condition (code.nodes (test + 2) back) ::
        code.nodes (back + 2) stop
    | .ifThen condition finish _ _ =>
      .ifThen condition (code.nodes (position + 2) finish) :: code.nodes (finish + 1) stop
    | .ifElse condition middle finish _ _ _ =>
      .ifElse condition (code.nodes (position + 2) (middle - 1))
        (code.nodes (middle + 1) finish) :: code.nodes (finish + 1) stop
  else
    []
termination_by stop - position

end Code

/-- The structure of a list of instructions. -/
def Node.recover (code : List Instruction) : List Node :=
  Code.nodes code.toArray 0 code.length

end BanglaScript
