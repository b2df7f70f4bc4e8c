import BanglaScript.Node

/-!
# Where names are introduced

JavaScript asks that every name be introduced by a `let` before it is used,
and a `let` holds only inside its block.  In a body, that is, in the program or
in a function, a name is introduced by its first write if that write stands
directly in the innermost block that contains all uses of the name.  All other
names of the body are introduced at its head.

A use inside a nested function counts as a use at the place of the function,
but only for names that the body uses itself.  Names that are visible from
outside and the names of the truth values are never introduced.
-/

namespace BanglaScript

/-- The name under which an operand is stored, if it is stored. -/
def Operand.storage? : Operand → Option String
  | .variable name => some name
  | .temporary index => some (Place.temporary index).text
  | _ => none

/-- The name of a variable that an operand reads. -/
def Operand.variable? : Operand → Option String
  | .variable name => some name
  | _ => none

/-- The name of a variable. -/
def Place.variable? : Place → Option String
  | .variable name => some name
  | _ => none

namespace Node

/-! ## Variables of functions -/

/-- The slots of the parameters of a function. -/
def slots (depth parameters : Nat) : List String :=
  (List.range parameters).map fun index => slotName depth index

mutual

/-- The variables that a node reads or writes, in order.  A function at
nesting `depth` contributes everything but its own parameters. -/
def mentioned (depth : Nat) : Node → List String
  | .simple instruction =>
    instruction.reads.filterMap Operand.variable? ++
      (instruction.target?.bind Place.variable?).toList
  | .call _ arguments _ => arguments.filterMap Operand.variable?
  | .ifThen condition body => condition.variable?.toList ++ mentionedAll depth body
  | .ifElse condition body alternative =>
    condition.variable?.toList ++ mentionedAll depth body ++ mentionedAll depth alternative
  | .loop before condition body =>
    mentionedAll depth before ++ condition.variable?.toList ++ mentionedAll depth body
  | .function _ parameters body =>
    (mentionedAll (depth + 1) body).filter fun name => ¬ name ∈ slots depth parameters
  | .unstructured _ => []

/-- The variables that several nodes read or write, in order. -/
def mentionedAll (depth : Nat) : List Node → List String
  | [] => []
  | first :: rest => mentioned depth first ++ mentionedAll depth rest

end

end Node

/-! ## Uses -/

/-- One use of a name. -/
structure NameUse where
  name : String
  /-- The blocks around the use, from the outermost inwards. -/
  path : List Nat
  isWrite : Bool
  /-- The use is not inside a nested function. -/
  isDirect : Bool
deriving DecidableEq

namespace NameUse

/-- The uses of operands that are read. -/
def ofReads (path : List Nat) (operands : List Operand) : List NameUse :=
  (operands.filterMap Operand.storage?).map fun name => ⟨name, path, false, true⟩

/-- The use of a place that is written, if there is one. -/
def ofWrite (path : List Nat) (target : Option Place) : List NameUse :=
  target.toList.map fun place => ⟨place.text, path, true, true⟩

/-- A computation that numbers blocks. -/
abbrev Numbering (α : Type) := StateM Nat α

/-- The number of the next block. -/
def freshBlock : Numbering Nat := modifyGet fun count => (count + 1, count + 1)

mutual

/-- The uses in a node of a body with `level` function bodies around it. -/
def ofNode (level : Nat) (path : List Nat) : Node → Numbering (List NameUse)
  | .simple instruction =>
    return ofReads path instruction.reads ++ ofWrite path instruction.target?
  | .call _ arguments result =>
    return ofReads path arguments ++ ofWrite path (result.map Place.temporary)
  | .ifThen condition body => do
    let block ← freshBlock
    let bodyUses ← ofNodes level (path ++ [block]) body
    return ofReads path [condition] ++ bodyUses
  | .ifElse condition body alternative => do
    let block ← freshBlock
    let bodyUses ← ofNodes level (path ++ [block]) body
    let elseBlock ← freshBlock
    let elseUses ← ofNodes level (path ++ [elseBlock]) alternative
    return ofReads path [condition] ++ bodyUses ++ elseUses
  | .loop before condition body => do
    let block ← freshBlock
    let inner := path ++ [block]
    let beforeUses ← ofNodes level inner before
    let bodyUses ← ofNodes level inner body
    -- Without code for the condition the test stands at the head of the loop.
    let testPath := if before.isEmpty then path else inner
    return beforeUses ++ ofReads testPath [condition] ++ bodyUses
  | .function _ parameters body =>
    return ((Node.mentioned level (.function "" parameters body)).eraseDups).map fun name =>
      ⟨name, path, false, false⟩
  | .unstructured _ => return []

/-- The uses in several nodes. -/
def ofNodes (level : Nat) (path : List Nat) : List Node → Numbering (List NameUse)
  | [] => return []
  | first :: rest => do
    let firstUses ← ofNode level path first
    let restUses ← ofNodes level path rest
    return firstUses ++ restUses

end

end NameUse

/-! ## Plans -/

/-- How the names of a body are introduced. -/
structure Introductions where
  /-- The names introduced by their first write. -/
  inline : List String
  /-- The names introduced at the head of the body, in order. -/
  hoisted : List String
deriving DecidableEq

/-- The blocks that two paths have in common. -/
def commonPath : List Nat → List Nat → List Nat
  | first :: rest, other :: others =>
    if first = other then first :: commonPath rest others else []
  | _, _ => []

namespace Introductions

/-- The first use among all uses of a name introduces it. -/
def isInline : List NameUse → Bool
  | [] => false
  | first :: rest =>
    let common := rest.foldl (fun path use => commonPath path use.path) first.path
    first.isWrite ∧ first.isDirect ∧ first.path = common

/-- The plan for the uses in a body. -/
def ofUses (uses : List NameUse) : Introductions :=
  let names := (uses.map NameUse.name).eraseDups
  let usesOf (name : String) : List NameUse := uses.filter fun use => use.name = name
  let own := names.filter fun name => (usesOf name).any NameUse.isDirect
  { inline := own.filter fun name => isInline (usesOf name)
    hoisted := own.filter fun name => ¬ isInline (usesOf name) }

/-- The plan for a body inside `level` function bodies.  The names in `outer`
are visible already. -/
def ofBody (body : List Node) (outer : List String) (level : Nat) : Introductions :=
  let uses := ((NameUse.ofNodes level [] body).run 0).1
  ofUses (uses.filter fun use =>
    ¬ (use.name ∈ outer ∨ use.name = "true" ∨ use.name = "false"))

end Introductions

end BanglaScript
