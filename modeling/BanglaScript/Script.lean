/-!
# Scripts

A script is a list of lines, each at a depth of nesting.
-/

namespace BanglaScript

/-- One line of a script. -/
structure Line where
  depth : Nat
  text : String
deriving DecidableEq

/-- The line with two blanks for each level. -/
def Line.render (line : Line) : String :=
  String.ofList (List.replicate (2 * line.depth) ' ') ++ line.text

/-- Lines in order. -/
structure Script where
  lines : List Line := []
deriving DecidableEq

namespace Script

/-- One more line at the end. -/
def push (script : Script) (line : Line) : Script := ⟨script.lines ++ [line]⟩

/-- One more line at the head. -/
def cons (line : Line) (script : Script) : Script := ⟨line :: script.lines⟩

/-- One script behind the other. -/
def append (first second : Script) : Script := ⟨first.lines ++ second.lines⟩

instance : Append Script := ⟨append⟩

/-- A script of one line. -/
def line (depth : Nat) (text : String) : Script := ⟨[⟨depth, text⟩]⟩

/-- The text of a script. -/
def render (script : Script) : String :=
  String.join (script.lines.map fun line => line.render ++ "\n")

end Script

end BanglaScript
