import BanglaScript.Check
import BanglaScript.Proofs.Evaluation
import BanglaScript.Proofs.Script.Values

/-!
# Running programs with faults

A program without functions is run step by step, and the run stops with a fault
where a program without types could go wrong: a name is not bound, an operator
does not suit its operands, or a condition is not a truth value.

Statements are run on a stack.  Its entries are the rests of the blocks that are
open, the innermost first, and each of these blocks has a scope.  The
declarations of a program are numbered in the order of its text, and a variable
keeps the number of the declaration that made it; a declaration in the body of a
loop makes a variable of the same number in every round.
-/

namespace BanglaScript

open List

/-- What can go wrong while a program runs. -/
inductive Fault where
  | unboundName (name : String)
  | arithmeticOperands (operator : BinaryOperator)
  | comparisonOperands (operator : BinaryOperator)
  | nonBooleanCondition
  /-- Functions are neither made nor called here. -/
  | function (name : String)
deriving DecidableEq

/-- The type of a value.  A variable that has been given no value has none. -/
def ScriptValue.type? : ScriptValue → Option ValueType
  | .number _ => some .number
  | .string _ => some .string
  | .boolean _ => some .boolean
  | .undefined => none

/-! ## Expressions -/

/-- What the operators compute where they suit their operands. -/
structure Operations where
  compute : BinaryOperator → Number → Number → Number
  join : ScriptValue → ScriptValue → String
  compare : BinaryOperator → ScriptValue → ScriptValue → Bool

/-- Apply an operator.  A sum with a string is a string; apart from that
arithmetic is for numbers, and values are compared with values of their type. -/
def Operations.apply (operations : Operations) (operator : BinaryOperator)
    (lhs rhs : ScriptValue) : Except Fault ScriptValue :=
  if operator = .add ∧ (lhs.isString ∨ rhs.isString) then
    .ok (.string (operations.join lhs rhs))
  else if operator.isArithmetic then
    match lhs, rhs with
    | .number left, .number right => .ok (.number (operations.compute operator left right))
    | _, _ => .error (.arithmeticOperands operator)
  else if lhs.type? = rhs.type? then .ok (.boolean (operations.compare operator lhs rhs))
  else .error (.comparisonOperands operator)

/-- A variable: the number of its declaration and the value that it holds. -/
structure Cell where
  number : Nat
  value : ScriptValue

/-- Evaluate an expression from left to right.  The names of the truth values
stand for these as long as no variable has them. -/
def Expr.evaluate (operations : Operations) (scopes : Scopes Cell) :
    Expr → Except Fault ScriptValue
  | .literal (.number value) => .ok (.number value)
  | .literal (.string contents) => .ok (.string contents)
  | .identifier name =>
    match scopes.find? name with
    | some cell => .ok cell.value
    | none =>
      if name = "true" then .ok (.boolean true)
      else if name = "false" then .ok (.boolean false)
      else .error (.unboundName name)
  | .binary operator lhs rhs => do
    let left ← lhs.evaluate operations scopes
    let right ← rhs.evaluate operations scopes
    operations.apply operator left right
  | .call name _ => .error (.function name)

/-- Evaluate a condition, which has to give a truth value. -/
def Expr.test (operations : Operations) (scopes : Scopes Cell) (condition : Expr) :
    Except Fault Bool := do
  match ← condition.evaluate operations scopes with
  | .boolean value => .ok value
  | _ => .error .nonBooleanCondition

/-! ## Statements -/

mutual

/-- The number of declarations in the text of a statement. -/
def Statement.declarationCount : Statement → Nat
  | .declaration _ _ => 1
  | .ifThen _ body => Statement.declarationCountIn body
  | .ifElse _ body alternative =>
    Statement.declarationCountIn body + Statement.declarationCountIn alternative
  | .repeatWhile _ body => Statement.declarationCountIn body
  | .block body => Statement.declarationCountIn body
  | .function _ _ body => Statement.declarationCountIn body
  | .assignment _ _ | .giveBack _ | .print _ | .expression _ => 0

/-- The number of declarations in the text of several statements. -/
def Statement.declarationCountIn : List Statement → Nat
  | [] => 0
  | first :: rest => first.declarationCount + Statement.declarationCountIn rest

end

/-- Statements that are still to be run, and the number of declarations that
stand before them in the text. -/
structure Pending where
  statements : List Statement
  number : Nat

/-- A moment of a run. -/
structure Moment where
  scopes : Scopes Cell
  /-- The rests of the open blocks, the innermost first. -/
  pending : List Pending
  printed : List ScriptValue := []

namespace Moment

/-- The moment before the first step. -/
def start (program : Program) : Moment :=
  { scopes := [[]], pending := [⟨program.body, 0⟩] }

/-- The variables that are live. -/
def live (moment : Moment) : List (String × Cell) := moment.scopes.flatten

/-- Go on in a new block and then with what is pending. -/
def enter (moment : Moment) (body : Pending) (pending : List Pending) : Moment :=
  { moment with scopes := [] :: moment.scopes, pending := body :: pending }

/-- Run a statement.  What is pending behind it is given, and so is what is
pending when it has to be run once more. -/
def runStatement (operations : Operations) (moment : Moment) (number : Nat)
    (again behind : List Pending) : Statement → Except Fault Moment
  | .declaration name initial => do
    let value ←
      match initial with
      | none => .ok .undefined
      | some value => value.evaluate operations moment.scopes
    .ok { moment with scopes := moment.scopes.bind name ⟨number, value⟩, pending := behind }
  | .assignment name value => do
    let value ← value.evaluate operations moment.scopes
    match moment.scopes.find? name with
    | none => .error (.unboundName name)
    | some cell =>
      match moment.scopes.assign? name { cell with value := value } with
      | none => .error (.unboundName name)
      | some changed => .ok { moment with scopes := changed, pending := behind }
  | .ifThen condition body => do
    if ← condition.test operations moment.scopes then .ok (moment.enter ⟨body, number⟩ behind)
    else .ok { moment with pending := behind }
  | .ifElse condition body alternative => do
    if ← condition.test operations moment.scopes then .ok (moment.enter ⟨body, number⟩ behind)
    else
      .ok (moment.enter ⟨alternative, number + Statement.declarationCountIn body⟩ behind)
  | .repeatWhile condition body => do
    if ← condition.test operations moment.scopes then .ok (moment.enter ⟨body, number⟩ again)
    else .ok { moment with pending := behind }
  | .block body => .ok (moment.enter ⟨body, number⟩ behind)
  | .function name _ _ => .error (.function name)
  | .giveBack none => .ok { moment with pending := [] }
  | .giveBack (some value) => do
    let _ ← value.evaluate operations moment.scopes
    .ok { moment with pending := [] }
  | .print value => do
    let value ← value.evaluate operations moment.scopes
    .ok { moment with pending := behind, printed := moment.printed ++ [value] }
  | .expression value => do
    let _ ← value.evaluate operations moment.scopes
    .ok { moment with pending := behind }

/-- One step of a run.  At the end of a block its scope is left.  A run that has
come to its end stays there. -/
def step (operations : Operations) (moment : Moment) : Except Fault Moment :=
  match moment.pending with
  | [] => .ok moment
  | ⟨[], _⟩ :: [] => .ok moment
  | ⟨[], _⟩ :: outer => .ok { moment with scopes := moment.scopes.tail, pending := outer }
  | ⟨first :: rest, number⟩ :: outer =>
    moment.runStatement operations number moment.pending
      (⟨rest, number + first.declarationCount⟩ :: outer) first

/-- The moment behind a number of steps. -/
def after (operations : Operations) : Nat → Moment → Except Fault Moment
  | 0, moment => .ok moment
  | count + 1, moment => do (← moment.step operations).after operations count

end Moment

/-! ## Scopes whose values are replaced -/

namespace Scopes

variable {Value Other : Type} {scopes : Scopes Value} {name : String} {value old : Value}

theorem tail_bind (scopes : Scopes Value) (name : String) (value : Value) :
    (scopes.bind name value).tail = scopes.tail := by
  cases scopes <;> rfl

/-- A name that is found is bound in one of the scopes. -/
theorem mem_flatten_of_find? (found : scopes.find? name = some value) :
    (name, value) ∈ scopes.flatten := by
  obtain ⟨_, scopeMem, bound⟩ := exists_of_findSome?_eq_some found
  obtain ⟨_, _, rfl, _⟩ := lookup_eq_some_iff.mp bound
  exact mem_flatten.mpr ⟨_, scopeMem, by simp⟩

theorem mem_flatten_bind {entry : String × Value}
    (member : entry ∈ (scopes.bind name value).flatten) :
    entry = (name, value) ∨ entry ∈ scopes.flatten := by
  cases scopes with
  | nil => exact .inr member
  | cons =>
    simpa [bind] using member

/-! An assignment puts a value in the place of another one.  Where a replacement
cannot tell the two apart it does not notice the assignment. -/

theorem assignIn_of_lookup {replace : Value → Other} {scope : List (String × Value)} {new : Value}
    (found : scope.lookup name = some old) (same : replace new = replace old) :
    ((assignIn name new scope).map fun entry => (entry.1, replace entry.2)) =
        (scope.map fun entry => (entry.1, replace entry.2)) ∧
      ∀ entry ∈ assignIn name new scope, entry = (name, new) ∨ entry ∈ scope := by
  induction scope with
  | nil => cases found
  | cons first rest ih =>
    obtain ⟨bound, _⟩ := first
    by_cases here : bound = name
    · subst here
      rw [lookup_cons_self] at found
      cases found
      simp only [assignIn, if_true]
      refine ⟨by simp only [map_cons, same], fun entry member => ?_⟩
      rcases mem_cons.mp member with rfl | inRest
      · exact .inl rfl
      · exact .inr (mem_cons_of_mem _ inRest)
    · rw [lookup_cons, beq_false_of_ne (Ne.symm here)] at found
      obtain ⟨restSame, restMem⟩ := ih found
      simp only [assignIn, here, if_false]
      refine ⟨by simp only [map_cons, restSame], fun entry member => ?_⟩
      rcases mem_cons.mp member with rfl | inRest
      · exact .inr mem_cons_self
      · exact (restMem entry inRest).imp_right (mem_cons_of_mem _)

/-- A variable that is found can be assigned. -/
theorem exists_assign? (replace : Value → Other) (new : Value)
    (found : scopes.find? name = some old) (same : replace new = replace old) :
    ∃ changed, scopes.assign? name new = some changed ∧
      changed.mapValues replace = scopes.mapValues replace ∧
      ∀ entry ∈ changed.flatten, entry = (name, new) ∨ entry ∈ scopes.flatten := by
  induction scopes with
  | nil => cases found
  | cons scope outer ih =>
    rw [find?, findSome?_cons] at found
    cases here : scope.lookup name with
    | some =>
      rw [here] at found
      cases found
      obtain ⟨scopeSame, scopeMem⟩ := assignIn_of_lookup here same
      refine ⟨assignIn name new scope :: outer, by simp [assign?, here],
        congrArg (· :: mapValues replace outer) scopeSame, fun entry member => ?_⟩
      rcases mem_append.mp member with inScope | inOuter
      · exact (scopeMem entry inScope).imp_right (mem_append_left _)
      · exact .inr (mem_append_right _ inOuter)
    | none =>
      rw [here] at found
      obtain ⟨changed, assigned, outerSame, outerMem⟩ := ih found
      refine ⟨scope :: changed, by simp [assign?, here, assigned],
        congrArg (scope.map _ :: ·) outerSame, fun entry member => ?_⟩
      rcases mem_append.mp member with inScope | inOuter
      · exact .inr (mem_append_left _ inScope)
      · exact (outerMem entry inOuter).imp_right (mem_append_right _)

end Scopes

end BanglaScript
