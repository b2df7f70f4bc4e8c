import BanglaScript.Proofs.Machine
import BanglaScript.Proofs.Script.Acts
import BanglaScript.Proofs.Structure.Arranged
import Mathlib.Logic.Function.Basic

/-!
# Running scripts and running nodes

Scripts are run with the scopes of the target language.  Every time a block is
entered, it gets a scope with the names that it introduces; a name has no value
before its `let` has been carried out, and using it there is a failure.  A use
of a name goes to the innermost scope that has it.

Nodes are run with one store for all names.  Both runs tell how they end and what
they print.  A run may repeat each loop a given number of times and is exhausted
when that is not enough, so the runs for larger and larger numbers tell what an
endless run prints.
-/

namespace BanglaScript

/-! ## Effects -/

/-- How a part of a run ends. -/
inductive Ending where
  | onward
  /-- The innermost loop is left. -/
  | left
  | returned
  /-- A loop would be repeated once too often. -/
  | exhausted
  /-- A name is used that has no value, or something that cannot be run. -/
  | failed
deriving DecidableEq

/-- What a part of a run does. -/
structure Effect (State Value : Type) where
  ending : Ending
  state : State
  output : List Value

namespace Effect

variable {State Value : Type}

/-- Nothing is printed and the run goes on. -/
def goOn (state : State) : Effect State Value := ⟨.onward, state, []⟩

/-- Nothing is printed and the run ends in some other way. -/
def stop (ending : Ending) (state : State) : Effect State Value := ⟨ending, state, []⟩

/-- What has been printed before comes first. -/
def printing (output : List Value) (effect : Effect State Value) : Effect State Value :=
  { effect with output := output ++ effect.output }

/-- One part of a run after another, if the first one goes on. -/
def andThen (first : Effect State Value) (next : State → Effect State Value) :
    Effect State Value :=
  match first.ending with
  | .onward => (next first.state).printing first.output
  | _ => first

/-- Up to a number of rounds, until one of them leaves the loop or the run. -/
def loop (round : State → Effect State Value) : Nat → State → Effect State Value
  | 0, state => stop .exhausted state
  | rounds + 1, state =>
    let first := round state
    match first.ending with
    | .onward => (loop round rounds first.state).printing first.output
    | .left => ⟨.onward, first.state, first.output⟩
    | _ => first

end Effect

/-! ## Scripts -/

/-- The names of a block.  A name that the block introduces has no value at
first. -/
abbrev BlockScope (Value : Type) := String → Option (Option Value)

/-- The scopes of the open blocks from the innermost outwards. -/
abbrev ScopeStack (Value : Type) := List (BlockScope Value)

namespace ScopeStack

variable {Value : Type}

/-- The value of a name, if the innermost scope that has the name has a value
for it. -/
def value? (scopes : ScopeStack Value) (name : String) : Option Value :=
  (scopes.findSome? fun scope => scope name).join

/-- Write a name in the innermost scope that has it.  It must have a value
already. -/
def assign? (name : String) (value : Value) : ScopeStack Value → Option (ScopeStack Value)
  | [] => none
  | scope :: outer =>
    match scope name with
    | some (some _) => some (Function.update scope name (some (some value)) :: outer)
    | some none => none
    | none => (assign? name value outer).map (scope :: ·)

/-- Give a name of the innermost scope its first value. -/
def introduce? (name : String) (value : Value) : ScopeStack Value → Option (ScopeStack Value)
  | [] => none
  | scope :: outer =>
    match scope name with
    | some none => some (Function.update scope name (some (some value)) :: outer)
    | _ => none

/-- The scope of a block that has just been entered. -/
def fresh (names : List String) : BlockScope Value := fun name =>
  if name ∈ names then some none else none

/-- The scope around the whole script, with the truth values. -/
def builtIn (meaning : Meaning Value) : BlockScope Value := fun name =>
  if name = "true" then some (some (meaning.boolean true))
  else if name = "false" then some (some (meaning.boolean false))
  else none

end ScopeStack

section Scripts

variable {Value : Type} (meaning : Meaning Value)

/-- The value of an operand, by the values of names. -/
def Meaning.ofStored? (look : String → Option Value) : Operand → Option Value
  | .variable name => look name
  | .temporary index => look (Place.temporary index).text
  | .number value => some (meaning.number value)
  | .string contents => some (meaning.string contents)

/-- The value of a computation, by the values of names.  Calls have none here. -/
def Meaning.ofWritten? (look : String → Option Value) : Computation → Option Value
  | .copy value => meaning.ofStored? look value
  | .operation opcode lhs rhs => do
    return meaning.operate opcode (← meaning.ofStored? look lhs) (← meaning.ofStored? look rhs)
  | .call _ _ => none

/-- What depends on whether a condition holds. -/
def ScopeStack.choose (scopes : ScopeStack Value) (condition : Operand)
    (whenTrue whenFalse : Effect (ScopeStack Value) Value) : Effect (ScopeStack Value) Value :=
  match meaning.ofStored? scopes.value? condition with
  | some value => if meaning.isTrue value then whenTrue else whenFalse
  | none => .stop .failed scopes

/-- Run a single line. -/
def Sentence.run (scopes : ScopeStack Value) : Sentence → Effect (ScopeStack Value) Value
  | .introduce names =>
    match names.foldlM (fun scopes name => scopes.introduce? name meaning.undefined) scopes with
    | some changed => .goOn changed
    | none => .stop .failed scopes
  | .store isLet target value =>
    match (do
      let result ← meaning.ofWritten? scopes.value? value
      if isLet then scopes.introduce? target.text result
      else scopes.assign? target.text result) with
    | some changed => .goOn changed
    | none => .stop .failed scopes
  | .print value =>
    match meaning.ofStored? scopes.value? value with
    | some shown => ⟨.onward, scopes, [shown]⟩
    | none => .stop .failed scopes
  | .giveBack none => .stop .returned scopes
  | .giveBack (some value) =>
    match meaning.ofStored? scopes.value? value with
    | some _ => .stop .returned scopes
    | none => .stop .failed scopes
  | .leaveUnless condition => scopes.choose meaning condition (.goOn scopes) (.stop .left scopes)
  | .comment _ => .goOn scopes
  | _ => .stop .failed scopes

namespace Act

/-- The names that an act introduces in the block it stands in. -/
def introduced : Act → List String
  | line sentence _ => sentence.introduced
  | _ => []

/-- Run something inside of a new block that introduces names. -/
def inBlock (names : List String)
    (inside : ScopeStack Value → Effect (ScopeStack Value) Value) (scopes : ScopeStack Value) :
    Effect (ScopeStack Value) Value :=
  let effect := inside (ScopeStack.fresh names :: scopes)
  { effect with state := effect.state.tail }

mutual

/-- Run an act, with at most `rounds` rounds of each loop. -/
def run (rounds : Nat) : Act → ScopeStack Value → Effect (ScopeStack Value) Value
  | line sentence _ => fun scopes => sentence.run meaning scopes
  | ifThen condition body => fun scopes =>
    scopes.choose meaning condition
      (inBlock (body.flatMap introduced) (runAll rounds body) scopes) (.goOn scopes)
  | ifElse condition body alternative => fun scopes =>
    scopes.choose meaning condition
      (inBlock (body.flatMap introduced) (runAll rounds body) scopes)
      (inBlock (alternative.flatMap introduced) (runAll rounds alternative) scopes)
  | loopWhile condition body =>
    Effect.loop (fun scopes => scopes.choose meaning condition
      (inBlock (body.flatMap introduced) (runAll rounds body) scopes) (.stop .left scopes)) rounds
  | forever body =>
    Effect.loop (inBlock (body.flatMap introduced) (runAll rounds body)) rounds

/-- Run acts one after the other. -/
def runAll (rounds : Nat) : List Act → ScopeStack Value → Effect (ScopeStack Value) Value
  | [] => Effect.goOn
  | first :: rest => fun scopes => (run rounds first scopes).andThen (runAll rounds rest)

end

end Act

/-- How the run of a script ends, and what it prints.  The lines must form
blocks. -/
def Draft.run? (rounds : Nat) (draft : Draft) : Option (Ending × List Value) :=
  (Act.read? draft.sentences).map fun acts =>
    let effect := Act.runAll meaning rounds acts
      [ScopeStack.fresh (acts.flatMap Act.introduced), ScopeStack.builtIn meaning]
    (effect.ending, effect.output)

end Scripts

/-! ## Nodes -/

/-- What every name holds. -/
abbrev NamedStore (Value : Type) := String → Value

section Nodes

variable {Value : Type} (meaning : Meaning Value)

/-- The store before anything is written.  Only the truth values are defined. -/
def NamedStore.start : NamedStore Value := fun name =>
  if name = "true" then meaning.boolean true
  else if name = "false" then meaning.boolean false
  else meaning.undefined

/-- The value of an operand, with everything stored under its name. -/
def Meaning.ofStored (store : NamedStore Value) : Operand → Value
  | .variable name => store name
  | .temporary index => store (Place.temporary index).text
  | .number value => meaning.number value
  | .string contents => meaning.string contents

/-- Run an instruction that is a node by itself. -/
def Instruction.runNamed (store : NamedStore Value) : Instruction → Effect (NamedStore Value) Value
  | .assign target value =>
    .goOn (Function.update store target.text (meaning.ofStored store value))
  | .binary opcode target lhs rhs =>
    .goOn (Function.update store (Place.temporary target).text
      (meaning.operate opcode (meaning.ofStored store lhs) (meaning.ofStored store rhs)))
  | .print value => ⟨.onward, store, [meaning.ofStored store value]⟩
  | .giveBack _ => .stop .returned store
  | _ => .stop .failed store

namespace Node

mutual

/-- Run a node with one store for all names, with at most `rounds` rounds of each
loop.  Functions and calls are not run here. -/
def runNamed (rounds : Nat) : Node → NamedStore Value → Effect (NamedStore Value) Value
  | .simple instruction => fun store => instruction.runNamed meaning store
  | .ifThen condition body => fun store =>
    if meaning.isTrue (meaning.ofStored store condition) then runAllNamed rounds body store
    else .goOn store
  | .ifElse condition body alternative => fun store =>
    if meaning.isTrue (meaning.ofStored store condition) then runAllNamed rounds body store
    else runAllNamed rounds alternative store
  | .loop before condition body =>
    Effect.loop (fun store => (runAllNamed rounds before store).andThen fun store =>
      if meaning.isTrue (meaning.ofStored store condition) then runAllNamed rounds body store
      else .stop .left store) rounds
  | .call _ _ _ | .function _ _ _ | .unstructured _ => Effect.stop .failed

/-- Run nodes one after the other. -/
def runAllNamed (rounds : Nat) : List Node → NamedStore Value → Effect (NamedStore Value) Value
  | [] => Effect.goOn
  | first :: rest => fun store => (runNamed rounds first store).andThen (runAllNamed rounds rest)

end

/-- How the run of nodes ends, and what it prints. -/
def run (rounds : Nat) (nodes : List Node) : Ending × List Value :=
  let effect := runAllNamed meaning rounds nodes (NamedStore.start meaning)
  (effect.ending, effect.output)

mutual

/-- The node has no functions, no calls and nothing without structure. -/
def isPlain : Node → Bool
  | .simple instruction => instruction.isWritten
  | .ifThen _ body => arePlain body
  | .ifElse _ body alternative => arePlain body && arePlain alternative
  | .loop before _ body => arePlain before && arePlain body
  | .call _ _ _ | .function _ _ _ | .unstructured _ => false

/-- None of the nodes has them. -/
def arePlain : List Node → Bool
  | [] => true
  | first :: rest => first.isPlain && arePlain rest

end

end Node

end Nodes

/-! ## More rounds -/

namespace Effect

variable {State Value : Type}

/-- The second part of a run is the first one, or the first one is exhausted and
has printed the beginning of what the second one prints. -/
def Reaches (first second : Effect State Value) : Prop :=
  first = second ∨ first.ending = .exhausted ∧ first.output <+: second.output

theorem output_isPrefix_andThen (first : Effect State Value) (next : State → Effect State Value) :
    first.output <+: (first.andThen next).output := by
  obtain ⟨ending, _, _⟩ := first
  cases ending with
  | onward => exact List.prefix_append _ _
  | _ => exact List.prefix_rfl

theorem output_isPrefix_loop (round : State → Effect State Value) (rounds : Nat) (state : State) :
    (round state).output <+: (loop round (rounds + 1) state).output := by
  rw [loop]
  generalize round state = first
  obtain ⟨ending, _, _⟩ := first
  cases ending with
  | onward => exact List.prefix_append _ _
  | _ => exact List.prefix_rfl

namespace Reaches

variable {first second : Effect State Value}

theorem printing (reaches : Reaches first second) (output : List Value) :
    Reaches (first.printing output) (second.printing output) :=
  reaches.imp (congrArg _) fun exhausted =>
    ⟨exhausted.1, (List.prefix_append_right_inj output).mpr exhausted.2⟩

theorem ite {condition : Bool} {otherwise otherSecond : Effect State Value}
    (whenTrue : Reaches first second) (whenFalse : Reaches otherwise otherSecond) :
    Reaches (if condition then first else otherwise)
      (if condition then second else otherSecond) := by
  cases condition with
  | true => exact whenTrue
  | false => exact whenFalse

theorem andThen (reaches : Reaches first second) {next other : State → Effect State Value}
    (nextReaches : ∀ state, Reaches (next state) (other state)) :
    Reaches (first.andThen next) (second.andThen other) := by
  obtain ⟨ending, state, output⟩ := first
  rcases reaches with rfl | ⟨exhausted, isPrefix⟩
  · cases ending with
    | onward => exact (nextReaches state).printing output
    | _ => exact .inl rfl
  · cases exhausted
    exact .inr ⟨rfl, isPrefix.trans (output_isPrefix_andThen second other)⟩

theorem loop {round other : State → Effect State Value}
    (roundReaches : ∀ state, Reaches (round state) (other state)) {rounds more : Nat}
    (le : rounds ≤ more) (state : State) :
    Reaches (loop round rounds state) (loop other more state) := by
  induction rounds generalizing more state with
  | zero => exact .inr ⟨rfl, List.nil_prefix⟩
  | succ rounds ih =>
    obtain ⟨more, rfl⟩ := Nat.exists_eq_add_of_le' (Nat.lt_of_lt_of_le rounds.succ_pos le)
    have reaches := roundReaches state
    have isPrefix := output_isPrefix_loop other more state
    rw [Effect.loop]
    generalize round state = first at reaches
    obtain ⟨ending, after, output⟩ := first
    rcases reaches with same | ⟨exhausted, shorter⟩
    · rw [Effect.loop, ← same]
      cases ending with
      | onward => exact (ih (Nat.le_of_succ_le_succ le) after).printing output
      | _ => exact .inl rfl
    · cases exhausted
      exact .inr ⟨rfl, shorter.trans isPrefix⟩

end Reaches

end Effect

namespace Node

variable {Value : Type} {meaning : Meaning Value} {rounds more : Nat}

open Effect (Reaches)

mutual

theorem reaches_runNamed (le : rounds ≤ more) (node : Node) (store : NamedStore Value) :
    Reaches (node.runNamed meaning rounds store) (node.runNamed meaning more store) := by
  cases node with
  | simple | call | function | unstructured => exact .inl rfl
  | ifThen condition body => exact .ite (reaches_runAllNamed le body store) (.inl rfl)
  | ifElse condition body alternative =>
    exact .ite (reaches_runAllNamed le body store) (reaches_runAllNamed le alternative store)
  | loop before condition body =>
    refine .loop (fun store => ?_) le store
    exact (reaches_runAllNamed le before store).andThen fun store =>
      .ite (reaches_runAllNamed le body store) (.inl rfl)

theorem reaches_runAllNamed (le : rounds ≤ more) (nodes : List Node) (store : NamedStore Value) :
    Reaches (runAllNamed meaning rounds nodes store) (runAllNamed meaning more nodes store) := by
  cases nodes with
  | nil => exact .inl rfl
  | cons node rest =>
    exact (reaches_runNamed le node store).andThen (reaches_runAllNamed le rest)

end

/-- More rounds print more, and change nothing if the run is not exhausted. -/
theorem run_of_le (le : rounds ≤ more) (nodes : List Node) :
    (run meaning rounds nodes).2 <+: (run meaning more nodes).2 ∧
      ((run meaning rounds nodes).1 ≠ .exhausted →
        run meaning more nodes = run meaning rounds nodes) := by
  have reaches : Reaches (runAllNamed meaning rounds nodes (NamedStore.start meaning))
      (runAllNamed meaning more nodes (NamedStore.start meaning)) :=
    reaches_runAllNamed le nodes _
  rcases reaches with same | ⟨exhausted, isPrefix⟩
  · rw [run, run, same]
    exact ⟨List.prefix_rfl, fun _ => rfl⟩
  · exact ⟨isPrefix, absurd exhausted⟩

end Node

end BanglaScript
