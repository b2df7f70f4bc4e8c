import BanglaScript.Instruction

/-!
# Strength reduction

Multiplication and division by a positive power of two become shifts by its
exponent.
-/

namespace BanglaScript.Pass

/-- The shift that stands for an operation with a power of two. -/
def shift? : Opcode → Option Opcode
  | .mul => some .shl
  | .div => some .shr
  | _ => none

/-- Reduce one instruction. -/
def shiftStep (instruction : Instruction) : Instruction :=
  match instruction with
  | .binary opcode target lhs (.number value) =>
    match shift? opcode, value.exponentOfTwo? with
    | some shift, some exponent => .binary shift target lhs (.number (Number.ofNat exponent))
    | _, _ => instruction
  | _ => instruction

/-- Strength reduction over a whole program. -/
def shiftPowers (code : List Instruction) : List Instruction := code.map shiftStep

end BanglaScript.Pass
