import BanglaScript.Instruction

/-!
# Structured code

Nodes describe code by its structure instead of by labels and jumps:
conditionals, loops and functions hold the nodes inside them.  What has no
structure is kept as it stands.
-/

namespace BanglaScript

/-- A piece of structured code. -/
inductive Node where
  /-- An assignment, an operation, a print or a return. -/
  | simple (instruction : Instruction)
  /-- A call with its arguments and the temporary that takes its result. -/
  | call (name : String) (arguments : List Operand) (result : Option Nat)
  | ifThen (condition : Operand) (body : List Node)
  | ifElse (condition : Operand) (body alternative : List Node)
  /-- A loop.  The nodes before the condition run before every test. -/
  | loop (before : List Node) (condition : Operand) (body : List Node)
  | function (name : String) (parameters : Nat) (body : List Node)
  | unstructured (instruction : Instruction)

end BanglaScript
