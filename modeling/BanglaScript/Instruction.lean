import BanglaScript.Text.Quoted
import BanglaScript.Tree

/-!
# Three-address instructions

Programs are lowered to flat lists of instructions.  Values are held in
variables and in numbered temporaries; control flows through numbered labels,
conditional branches that name both of their targets, and jumps.  A function
stands between its start and its end and finds its arguments in parameter
slots.
-/

namespace BanglaScript

/-- The name of a parameter of a function that is nested in `depth` others.
A dollar sign keeps it apart from the names of source programs, but only if the
function is nested in another one; a program may have a variable `param0`. -/
def slotName (depth index : Nat) : String :=
  if depth = 0 then s!"param{index}" else s!"param{index}${depth}"

/-- Something that can be read. -/
inductive Operand where
  | variable (name : String)
  | temporary (number : Nat)
  | number (value : Number)
  | string (contents : String)
deriving DecidableEq

/-- Something that can be written. -/
inductive Place where
  | variable (name : String)
  | temporary (number : Nat)
deriving DecidableEq

namespace Place

/-- The operand that reads the place. -/
def operand : Place → Operand
  | .variable name => .variable name
  | .temporary index => .temporary index

/-- The number of a temporary. -/
def temporary? : Place → Option Nat
  | .variable _ => none
  | .temporary index => some index

/-- The text of a place. -/
def text : Place → String
  | .variable name => name
  | .temporary index => s!"t{index}"

end Place

namespace Operand

/-- The value of a number. -/
def number? : Operand → Option Number
  | .number value => some value
  | _ => none

/-- The number of a temporary. -/
def temporary? : Operand → Option Nat
  | .temporary index => some index
  | _ => none

/-- The place that the operand reads. -/
def place? : Operand → Option Place
  | .variable name => some (.variable name)
  | .temporary index => some (.temporary index)
  | _ => none

/-- Reading the operand reads the place. -/
def readsPlace (operand : Operand) (place : Place) : Bool := operand.place? = some place

/-- The text of an operand. -/
def text : Operand → String
  | .variable name => name
  | .temporary index => s!"t{index}"
  | .number value => value.scriptText
  | .string contents => Text.quoted contents

end Operand

/-- The operations on two operands. -/
inductive Opcode where
  | add
  | sub
  | mul
  | div
  | eq
  | ne
  | lt
  | gt
  | le
  | ge
  /-- Shift to the left; it comes only from strength reduction. -/
  | shl
  /-- Shift to the right; it comes only from strength reduction. -/
  | shr
deriving DecidableEq

namespace Opcode

/-- Every opcode once. -/
def all : List Opcode := [add, sub, mul, div, eq, ne, lt, gt, le, ge, shl, shr]

/-- The opcode of an operator. -/
def ofOperator : BinaryOperator → Opcode
  | .add => add
  | .subtract => sub
  | .multiply => mul
  | .divide => div
  | .equal => eq
  | .notEqual => ne
  | .less => lt
  | .greater => gt
  | .lessEqual => le
  | .greaterEqual => ge

/-- The name of the opcode. -/
def name : Opcode → String
  | add => "ADD"
  | sub => "SUB"
  | mul => "MUL"
  | div => "DIV"
  | eq => "EQ"
  | ne => "NE"
  | lt => "LT"
  | gt => "GT"
  | le => "LE"
  | ge => "GE"
  | shl => "SHL"
  | shr => "SHR"

/-- The JavaScript operator that computes the opcode. -/
def scriptSymbol : Opcode → String
  | add => "+"
  | sub => "-"
  | mul => "*"
  | div => "/"
  | eq => "==="
  | ne => "!=="
  | lt => "<"
  | gt => ">"
  | le => "<="
  | ge => ">="
  | shl => "<<"
  | shr => ">>"

/-- One of the four basic operations. -/
def isArithmetic : Opcode → Bool
  | add | sub | mul | div => true
  | _ => false

/-- The operands can be exchanged. -/
def isCommutative : Opcode → Bool
  | add | mul => true
  | _ => false

/-- The value of the operation on two numbers.  Only arithmetic is evaluated,
and nothing is divided by zero. -/
def evaluate (opcode : Opcode) (lhs rhs : Number) : Option Number :=
  match opcode with
  | add => some (lhs.add rhs)
  | sub => some (lhs.sub rhs)
  | mul => some (lhs.mul rhs)
  | div => if rhs.isZero then none else some (lhs.div rhs)
  | _ => none

end Opcode

/-- One step of a lowered program. -/
inductive Instruction where
  | assign (target : Place) (value : Operand)
  /-- The target is a temporary. -/
  | binary (opcode : Opcode) (target : Nat) (lhs rhs : Operand)
  /-- Go to one label if the condition holds and to the other if not. -/
  | branch (condition : Operand) (whenTrue whenFalse : Nat)
  | jump (label : Nat)
  | label (label : Nat)
  | functionStart (name : String) (parameters : Nat)
  | functionEnd (name : String)
  | push (value : Operand)
  | call (name : String) (arguments : Nat)
  /-- Store the result of the last call in a temporary. -/
  | pop (target : Nat)
  | giveBack (value : Option Operand)
  | print (value : Operand)
deriving DecidableEq

namespace Instruction

/-- The name of the instruction. -/
def opcodeName : Instruction → String
  | assign _ _ => "ASSIGN"
  | binary opcode _ _ _ => opcode.name
  | branch _ _ _ => "IF"
  | jump _ => "GOTO"
  | label _ => "LABEL"
  | functionStart _ _ => "FUNCTION"
  | functionEnd _ => "ENDFUNCTION"
  | push _ => "PUSH"
  | call _ _ => "CALL"
  | pop _ => "POP"
  | giveBack _ => "RETURN"
  | print _ => "PRINT"

/-- The label that the instruction defines. -/
def definedLabel? : Instruction → Option Nat
  | label number => some number
  | _ => none

/-- The labels that the instruction may go to. -/
def targetLabels : Instruction → List Nat
  | branch _ whenTrue whenFalse => [whenTrue, whenFalse]
  | jump number => [number]
  | _ => []

/-- The place that the instruction writes. -/
def target? : Instruction → Option Place
  | assign target _ => some target
  | binary _ target _ _ => some (.temporary target)
  | pop target => some (.temporary target)
  | _ => none

/-- The operands that the instruction reads, in order. -/
def reads : Instruction → List Operand
  | assign _ value => [value]
  | binary _ _ lhs rhs => [lhs, rhs]
  | branch condition _ _ => [condition]
  | push value => [value]
  | print value => [value]
  | giveBack (some value) => [value]
  | _ => []

/-- The instruction reads the place. -/
def readsPlace (instruction : Instruction) (place : Place) : Bool :=
  instruction.reads.any fun operand => operand.readsPlace place

/-- The text of a label. -/
def labelText (number : Nat) : String := s!"L{number}"

/-- The texts of what stands behind the name of the instruction. -/
def argumentTexts : Instruction → List String
  | assign target value => [target.text, value.text]
  | binary _ target lhs rhs => [(Place.temporary target).text, lhs.text, rhs.text]
  | branch condition whenTrue whenFalse =>
    [condition.text, labelText whenTrue, labelText whenFalse]
  | jump number => [labelText number]
  | label number => [labelText number]
  | functionStart name parameters => [name, toString parameters]
  | functionEnd name => [name]
  | push value => [value.text]
  | call name arguments => [name, toString arguments]
  | pop target => [(Place.temporary target).text]
  | giveBack (some value) => [value.text]
  | giveBack none => []
  | print value => [value.text]

/-- The text of an instruction.  A label also stands in front of the
instruction that defines it. -/
def text (instruction : Instruction) : String :=
  let head :=
    match instruction.definedLabel? with
    | some number => labelText number ++ ": "
    | none => ""
  let body :=
    match instruction.argumentTexts with
    | [] => instruction.opcodeName
    | arguments => instruction.opcodeName ++ " " ++ Text.join ", " arguments
  head ++ body

/-- The instructions with their numbers, one a line. -/
def listing (code : List Instruction) : String :=
  String.join (code.zipIdx.map fun entry =>
    Text.alignRight 4 (toString (entry.2 + 1)) ++ ". " ++ entry.1.text ++ "\n")

end Instruction

end BanglaScript
