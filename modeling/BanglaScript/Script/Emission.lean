import BanglaScript.Node.Introduction
import BanglaScript.Node.Recovery
import BanglaScript.Script.Sentence

/-!
# Writing JavaScript

Every node of structured code becomes lines of JavaScript.  While a body is
written, the names that are visible and the names that the body has introduced
so far are kept: the first write of a name that is introduced inline carries
the `let`.  Code without structure becomes a comment.
-/

namespace BanglaScript

/-- The names known at a point of a body. -/
structure KnownNames where
  /-- The names that are visible here. -/
  visible : List String
  /-- The names that the body has introduced so far, in whatever block. -/
  introduced : List String
deriving DecidableEq

/-- A computation that introduces names. -/
abbrev Emit (α : Type) := StateM KnownNames α

namespace Emit

/-- Whether a write introduces its name, which is then known. -/
def isFirst (plan : Introductions) (name : String) : Emit Bool := do
  let known ← get
  if name ∈ plan.inline ∧ ¬ name ∈ known.introduced then
    set ({ visible := name :: known.visible, introduced := name :: known.introduced } : KnownNames)
    return true
  else
    return false

/-- Leave a block: what it introduced is no longer visible. -/
def inBlock {α : Type} (inner : Emit α) : Emit α := do
  let outside ← get
  let result ← inner
  modify fun known => { known with visible := outside.visible }
  return result

/-- The line that stores something. -/
def store (plan : Introductions) (depth : Nat) (target : Place) (value : Computation) :
    Emit Draft := do
  let isLet ← isFirst plan target.text
  return .line depth (.store isLet target value)

/-- The line of an instruction that is a node by itself. -/
def instruction (plan : Introductions) (depth : Nat) : Instruction → Emit Draft
  | .assign target value => store plan depth target (.copy value)
  | .binary opcode target lhs rhs =>
    store plan depth (.temporary target) (.operation opcode lhs rhs)
  | .print value => return .line depth (.print value)
  | .giveBack value => return .line depth (.giveBack value)
  | other => return .line depth (.comment other)

/-- The line of a call. -/
def call (plan : Introductions) (depth : Nat) (name : String) (arguments : List Operand) :
    Option Nat → Emit Draft
  | none => return .line depth (.perform name arguments)
  | some target => store plan depth (.temporary target) (.call name arguments)

/-- The lines of a body below the line that introduces its hoisted names. -/
def headed (plan : Introductions) (depth : Nat) (body : Draft) : Draft :=
  if plan.hoisted.isEmpty then body else (depth, .introduce plan.hoisted) :: body

/-- The names known at the head of a body. -/
def atHead (plan : Introductions) (outer : List String) : KnownNames :=
  ⟨plan.hoisted ++ outer, plan.hoisted⟩

mutual

/-- The lines of a node in a body inside `level` function bodies. -/
def node (plan : Introductions) (level depth : Nat) : Node → Emit Draft
  | .simple code => instruction plan depth code
  | .call name arguments result => call plan depth name arguments result
  | .ifThen condition body => do
    let bodyLines ← inBlock (nodes plan level (depth + 1) body)
    return Draft.line depth (.openIf condition) ++ bodyLines ++ Draft.line depth .close
  | .ifElse condition body alternative => do
    let bodyLines ← inBlock (nodes plan level (depth + 1) body)
    let elseLines ← inBlock (nodes plan level (depth + 1) alternative)
    return Draft.line depth (.openIf condition) ++ bodyLines ++ Draft.line depth .openElse ++
      elseLines ++ Draft.line depth .close
  | .loop [] condition body => do
    let bodyLines ← inBlock (nodes plan level (depth + 1) body)
    return Draft.line depth (.openWhile condition) ++ bodyLines ++ Draft.line depth .close
  | .loop (first :: rest) condition body => do
    let inner ← inBlock do
      let firstLines ← node plan level (depth + 1) first
      let restLines ← nodes plan level (depth + 1) rest
      let bodyLines ← nodes plan level (depth + 1) body
      return firstLines ++ restLines ++
        Draft.line (depth + 1) (.leaveUnless condition) ++ bodyLines
    return Draft.line depth .openForever ++ inner ++ Draft.line depth .close
  | .function name parameters body => do
    let parameterNames := Node.slots level parameters
    let outer := parameterNames ++ (← get).visible
    let inner := Introductions.ofBody body outer (level + 1)
    let bodyLines := ((nodes inner (level + 1) (depth + 1) body).run (atHead inner outer)).1
    return Draft.line depth (.openFunction name parameterNames) ++
      headed inner (depth + 1) bodyLines ++ Draft.line depth .close
  | .unstructured code => return .line depth (.comment code)

/-- The lines of several nodes. -/
def nodes (plan : Introductions) (level depth : Nat) : List Node → Emit Draft
  | [] => return []
  | first :: rest => do
    let firstLines ← node plan level depth first
    let restLines ← nodes plan level depth rest
    return firstLines ++ restLines

end

end Emit

/-- The draft of structured code. -/
def Draft.ofNodes (nodes : List Node) : Draft :=
  let plan := Introductions.ofBody nodes [] 0
  Emit.headed plan 0 ((Emit.nodes plan 0 0 nodes).run (Emit.atHead plan [])).1

/-- The draft of a list of instructions. -/
def Draft.ofCode (code : List Instruction) : Draft := Draft.ofNodes (Node.recover code)

/-- The script of a list of instructions. -/
def Script.ofCode (code : List Instruction) : Script := (Draft.ofCode code).script

end BanglaScript
