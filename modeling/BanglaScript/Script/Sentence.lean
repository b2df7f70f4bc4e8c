import BanglaScript.Instruction
import BanglaScript.Script

/-!
# Sentences of JavaScript

A sentence is what one line of a script says, apart from its depth of nesting.
Sentences at their depths form a draft, and writing a draft down gives a
script.
-/

namespace BanglaScript

/-- What a line stores. -/
inductive Computation where
  | copy (value : Operand)
  | operation (opcode : Opcode) (lhs rhs : Operand)
  | call (name : String) (arguments : List Operand)
deriving DecidableEq

namespace Computation

/-- The text of what is stored. -/
def text : Computation → String
  | copy value => value.text
  | operation opcode lhs rhs => lhs.text ++ " " ++ opcode.scriptSymbol ++ " " ++ rhs.text
  | call name arguments => name ++ "(" ++ Text.join ", " (arguments.map Operand.text) ++ ")"

end Computation

/-- What one line of a script says. -/
inductive Sentence where
  /-- Names are introduced without values. -/
  | introduce (names : List String)
  /-- A value is stored; the name may be introduced at the same time. -/
  | store (isLet : Bool) (target : Place) (value : Computation)
  /-- A call whose result is dropped. -/
  | perform (name : String) (arguments : List Operand)
  | print (value : Operand)
  | giveBack (value : Option Operand)
  | openIf (condition : Operand)
  /-- The end of the first block of a conditional, and the start of the second. -/
  | openElse
  | openWhile (condition : Operand)
  | openForever
  /-- The loop is left if the condition does not hold. -/
  | leaveUnless (condition : Operand)
  | openFunction (name : String) (parameters : List String)
  | close
  | comment (instruction : Instruction)
deriving DecidableEq

namespace Sentence

/-- The text of a sentence. -/
def text : Sentence → String
  | introduce names => "let " ++ Text.join ", " names ++ ";"
  | store isLet target value =>
    (if isLet then "let " else "") ++ target.text ++ " = " ++ value.text ++ ";"
  | perform name arguments => (Computation.call name arguments).text ++ ";"
  | print value => "console.log(" ++ value.text ++ ");"
  | giveBack (some value) => "return " ++ value.text ++ ";"
  | giveBack none => "return;"
  | openIf condition => "if (" ++ condition.text ++ ") \x7b"
  | openElse => "\x7d else \x7b"
  | openWhile condition => "while (" ++ condition.text ++ ") \x7b"
  | openForever => "while (true) \x7b"
  | leaveUnless condition => "if (!" ++ condition.text ++ ") break;"
  | openFunction name parameters =>
    "function " ++ name ++ "(" ++ Text.join ", " parameters ++ ") \x7b"
  | close => "\x7d"
  | comment instruction => "// " ++ instruction.text

end Sentence

/-- Sentences at their depths of nesting. -/
abbrev Draft := List (Nat × Sentence)

namespace Draft

/-- A draft of one sentence. -/
def line (depth : Nat) (sentence : Sentence) : Draft := [(depth, sentence)]

/-- The draft written down. -/
def script (draft : Draft) : Script :=
  ⟨draft.map fun entry => ⟨entry.1, entry.2.text⟩⟩

end Draft

end BanglaScript
