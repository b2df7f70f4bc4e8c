import BanglaScript.Instruction

/-!
# Names of the lowered program

Lowering hands out temporaries and labels in order, and decides the name that
each variable of the source has in the lowered program.  A variable keeps its
name unless it hides another one that is visible where it is declared; then it
gets a fresh name.  Parameters are found in their slots.
-/

namespace BanglaScript

/-- The names in use while a program is lowered. -/
structure Naming where
  /-- How many temporaries have been handed out. -/
  temporaries : Nat := 0
  /-- How many labels have been handed out. -/
  labels : Nat := 0
  /-- How many variables have been given a fresh name. -/
  renames : Nat := 0
  /-- The open scopes from the innermost outwards; each maps the names of the
  source to names of the lowered program, the latest declaration first. -/
  scopes : List (List (String × String)) := []
  /-- How many functions are being lowered around this point. -/
  functions : Nat := 0
deriving DecidableEq

namespace Naming

/-- The next temporary. -/
def freshTemporary (naming : Naming) : Nat × Naming :=
  let number := naming.temporaries + 1
  (number, { naming with temporaries := number })

/-- The next label. -/
def freshLabel (naming : Naming) : Nat × Naming :=
  let number := naming.labels + 1
  (number, { naming with labels := number })

/-- The name bound to a variable by an open scope. -/
def bound? (naming : Naming) (name : String) : Option String :=
  naming.scopes.findSome? fun scope => scope.lookup name

/-- The name of a variable in the lowered program.  A name that is bound
nowhere stands for itself. -/
def resolve (naming : Naming) (name : String) : String := (naming.bound? name).getD name

/-- Bind a name in the innermost scope, if there is one. -/
def bind (naming : Naming) (name generated : String) : Naming :=
  match naming.scopes with
  | [] => naming
  | scope :: outer => { naming with scopes := ((name, generated) :: scope) :: outer }

/-- Declare a variable and give its name in the lowered program. -/
def declare (naming : Naming) (name : String) : String × Naming :=
  match naming.bound? name with
  | none => (name, naming.bind name name)
  | some _ =>
    let count := naming.renames + 1
    let generated := s!"{name}${count}"
    (generated, { naming with renames := count }.bind name generated)

/-- Open a scope. -/
def openScope (naming : Naming) : Naming := { naming with scopes := [] :: naming.scopes }

/-- Leave the innermost scope. -/
def closeScope (naming : Naming) : Naming := { naming with scopes := naming.scopes.tail }

/-- The scope that binds parameters to their slots.  If a name occurs twice
the later parameter counts. -/
def parameterScope (depth : Nat) (parameters : List String) : List (String × String) :=
  (parameters.zipIdx.map fun entry => (entry.1, slotName depth entry.2)).reverse

/-- Open the scope of a function. -/
def openFunction (naming : Naming) (parameters : List String) : Naming :=
  { naming with
    scopes := parameterScope naming.functions parameters :: naming.scopes
    functions := naming.functions + 1 }

/-- Leave the scope of a function.  A function has to be open: the subtraction
stops at zero, where there is nothing to leave. -/
def closeFunction (naming : Naming) : Naming :=
  { naming with scopes := naming.scopes.tail, functions := naming.functions - 1 }

end Naming

end BanglaScript
