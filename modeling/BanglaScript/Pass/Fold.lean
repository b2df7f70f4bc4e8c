import BanglaScript.Instruction

/-!
# Constant folding

An arithmetic operation on two known numbers becomes the assignment of its
value.  Temporaries that hold a known number are replaced by it in later
operations and assignments, so chains of constants collapse in one sweep.  A
value that is not finite is left to be computed when the program runs.
-/

namespace BanglaScript.Pass

/-- The numbers that temporaries are known to hold, the latest first. -/
abbrev Constants := List (Nat × Number)

namespace Constants

/-- An operand with a known temporary replaced by its number. -/
def substitute (constants : Constants) (operand : Operand) : Operand :=
  match operand with
  | .temporary number =>
    match constants.lookup number with
    | some value => .number value
    | none => operand
  | _ => operand

end Constants

/-- The finite value of an arithmetic operation on two numbers. -/
def foldedValue? (opcode : Opcode) (lhs rhs : Operand) : Option Number := do
  let left ← lhs.number?
  let right ← rhs.number?
  let value ← opcode.evaluate left right
  if value.isFinite then some value else none

/-- Fold one instruction and learn from it. -/
def foldStep (constants : Constants) (instruction : Instruction) :
    Instruction × Constants :=
  match instruction with
  | .binary opcode target lhs rhs =>
    let left := constants.substitute lhs
    let right := constants.substitute rhs
    match foldedValue? opcode left right with
    | some value => (.assign (.temporary target) (.number value), (target, value) :: constants)
    | none => (.binary opcode target left right, constants)
  | .assign target value =>
    let known := constants.substitute value
    match target, known with
    | .temporary number, .number constant =>
      (.assign target known, (number, constant) :: constants)
    | _, _ => (.assign target known, constants)
  | _ => (instruction, constants)

/-- Fold instructions one after the other. -/
def foldFrom (constants : Constants) : List Instruction → List Instruction
  | [] => []
  | first :: rest =>
    let (folded, learned) := foldStep constants first
    folded :: foldFrom learned rest

/-- Constant folding over a whole program. -/
def foldConstants (code : List Instruction) : List Instruction := foldFrom [] code

end BanglaScript.Pass
