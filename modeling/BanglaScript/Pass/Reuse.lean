import BanglaScript.Instruction

/-!
# Common subexpression elimination

An arithmetic operation whose value is still held by a temporary becomes a
copy of that temporary.  A held value is forgotten when one of its operands or
the temporary itself is written; labels, function boundaries and calls forget
everything.
-/

namespace BanglaScript.Pass

/-- What identifies an operation: its opcode and the texts of its operands. -/
structure ExpressionKey where
  opcode : Opcode
  lhs : String
  rhs : String
deriving DecidableEq

/-- Numbers compare by value and everything else by its text. -/
def compareOperands (lhs rhs : Operand) : Ordering :=
  match lhs, rhs with
  | .number left, .number right => left.totalOrder right
  | _, _ => compare lhs.text rhs.text

namespace ExpressionKey

/-- The key of an operation.  Operands that can be exchanged are put in
order. -/
def of (opcode : Opcode) (lhs rhs : Operand) : ExpressionKey :=
  if opcode.isCommutative ∧ compareOperands lhs rhs = .gt then ⟨opcode, rhs.text, lhs.text⟩
  else ⟨opcode, lhs.text, rhs.text⟩

end ExpressionKey

/-- An operation whose value a temporary holds. -/
structure Held where
  key : ExpressionKey
  lhs : Operand
  rhs : Operand
  result : Nat
deriving DecidableEq

namespace Held

/-- Writing the place ends the validity of what is held. -/
def isSpoiledBy (held : Held) (place : Place) : Bool :=
  held.lhs.readsPlace place ∨ held.rhs.readsPlace place ∨ Place.temporary held.result = place

end Held

/-- The operations whose values are held. -/
abbrev Available := List Held

namespace Available

/-- The temporary that holds the value of an operation. -/
def find? (available : Available) (key : ExpressionKey) : Option Nat :=
  (List.find? (fun held : Held => held.key = key) available).map Held.result

/-- Forget what a write to the place spoils. -/
def forget (available : Available) (place : Place) : Available :=
  List.filter (fun held : Held => ¬ held.isSpoiledBy place) available

/-- Remember an operation, unless its result is one of its own operands. -/
def remember (available : Available) (opcode : Opcode) (lhs rhs : Operand) (result : Nat) :
    Available :=
  let place := Place.temporary result
  if lhs.readsPlace place ∨ rhs.readsPlace place then available
  else ⟨ExpressionKey.of opcode lhs rhs, lhs, rhs, result⟩ :: available

/-- What is held behind an instruction that remembers nothing. -/
def after (available : Available) (instruction : Instruction) : Available :=
  match instruction with
  | .label _ | .functionStart _ _ | .functionEnd _ | .call _ _ => []
  | _ =>
    match instruction.target? with
    | some place => available.forget place
    | none => available

end Available

/-- Replace one instruction if its value is held, and say what is held then. -/
def reuseStep (available : Available) (instruction : Instruction) :
    Instruction × Available :=
  match instruction with
  | .binary opcode target lhs rhs =>
    if opcode.isArithmetic then
      match available.find? (ExpressionKey.of opcode lhs rhs) with
      | some held =>
        let copy : Instruction := .assign (.temporary target) (.temporary held)
        (copy, available.after copy)
      | none =>
        (instruction,
          (available.forget (.temporary target)).remember opcode lhs rhs target)
    else
      (instruction, available.after instruction)
  | _ => (instruction, available.after instruction)

/-- Replace instructions one after the other. -/
def reuseFrom (available : Available) : List Instruction → List Instruction
  | [] => []
  | first :: rest =>
    let (replaced, held) := reuseStep available first
    replaced :: reuseFrom held rest

/-- Common subexpression elimination over a whole program. -/
def reuseHeld (code : List Instruction) : List Instruction := reuseFrom [] code

end BanglaScript.Pass
