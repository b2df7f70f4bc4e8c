import BanglaScript.Symbol.Table
import BanglaScript.Tree

/-!
# Checking names and types

Checking walks a program once, from the first statement to the last, and
collects what it finds instead of stopping: errors, which make the program
invalid, warnings, and notes on what was checked.

A phrase that has been reported gets the type `error`, and nothing further is
reported about it.
-/

namespace BanglaScript

/-- The statements that test a condition. -/
inductive Construct where
  | conditional
  | loop
deriving DecidableEq

/-- The name of the construct in reports. -/
def Construct.name : Construct → String
  | .conditional => "If"
  | .loop => "While"

/-- Why a program is invalid. -/
inductive CheckError where
  | alreadyDefined (name scope : String)
  | functionAlreadyDefined (name : String)
  | undefinedVariable (name : String)
  | undefinedFunction (name : String)
  | assignMismatch (name : String) (value target : ValueType)
  | arithmeticOperands (operator : BinaryOperator) (lhs rhs : ValueType)
  | comparisonOperands (operator : BinaryOperator) (lhs rhs : ValueType)
  | nonBooleanCondition (construct : Construct) (found : ValueType)
deriving DecidableEq

namespace CheckError

/-- The wording of the error. -/
def message : CheckError → String
  | alreadyDefined name scope =>
    "Variable '" ++ name ++ "' is already defined in scope '" ++ scope ++ "'"
  | functionAlreadyDefined name => "Function '" ++ name ++ "' is already defined"
  | undefinedVariable name => "Variable '" ++ name ++ "' is not defined"
  | undefinedFunction name => "Function '" ++ name ++ "' is not defined"
  | assignMismatch name value target =>
    "Cannot assign value of type '" ++ value.name ++ "' to variable '" ++ name ++
      "' of type '" ++ target.name ++ "'"
  | arithmeticOperands operator lhs rhs =>
    "Arithmetic operation '" ++ operator.symbol ++ "' requires numeric operands, got '" ++
      lhs.name ++ "' and '" ++ rhs.name ++ "'"
  | comparisonOperands operator lhs rhs =>
    "Comparison operation '" ++ operator.symbol ++
      "' requires operands of the same type, got '" ++ lhs.name ++ "' and '" ++ rhs.name ++ "'"
  | nonBooleanCondition construct found =>
    construct.name ++ " condition must be boolean, got '" ++ found.name ++ "'"

end CheckError

/-- What deserves attention in a valid program. -/
inductive CheckWarning where
  | usedBeforeInitialization (name : String)
deriving DecidableEq

/-- The wording of the warning. -/
def CheckWarning.message : CheckWarning → String
  | .usedBeforeInitialization name => "Variable '" ++ name ++ "' is used before initialization"

/-- What was checked. -/
inductive CheckNote where
  | declared (name : String) (type : ValueType)
  | assigned (name : String) (type : ValueType)
  | functionDeclared (name : String) (parameters : Nat)
  | argument (number : Nat) (type : ValueType)
  | returned (type : ValueType)
  | printed (type : ValueType)
deriving DecidableEq

namespace CheckNote

/-- The wording of the note. -/
def message : CheckNote → String
  | declared name type => "Variable '" ++ name ++ "' declared with type '" ++ type.name ++ "'"
  | assigned name type => "Assignment to '" ++ name ++ "' (" ++ type.name ++ ")"
  | functionDeclared name parameters =>
    "Function '" ++ name ++ "' declared with " ++ toString parameters ++ " parameters"
  | argument number type => "Function call argument " ++ toString number ++ ": " ++ type.name
  | returned type => "Return statement in function: " ++ type.name
  | printed type => "Print statement: " ++ type.name

end CheckNote

/-- Everything that checking has found so far. -/
structure Findings where
  table : SymbolTable
  errors : List CheckError := []
  warnings : List CheckWarning := []
  notes : List CheckNote := []
deriving DecidableEq

/-- A program is valid when nothing in it is an error. -/
def Findings.isValid (findings : Findings) : Bool := findings.errors.isEmpty

/-- A computation that adds to the findings. -/
abbrev Check (α : Type) := StateM Findings α

namespace Check

/-- Record an error; the phrase at fault has the type `error`. -/
def report (error : CheckError) : Check ValueType := do
  modify fun findings => { findings with errors := findings.errors ++ [error] }
  pure .error

/-- Record a warning. -/
def warn (warning : CheckWarning) : Check Unit :=
  modify fun findings => { findings with warnings := findings.warnings ++ [warning] }

/-- Record a note. -/
def note (note : CheckNote) : Check Unit :=
  modify fun findings => { findings with notes := findings.notes ++ [note] }

/-- Ask the symbol table. -/
def ask {α : Type} (question : SymbolTable → α) : Check α := do
  return question (← get).table

/-- Change the symbol table. -/
def update (change : SymbolTable → SymbolTable) : Check Unit :=
  modify fun findings => { findings with table := change findings.table }

/-- Declare a name that has a value exactly if `initialized` holds. -/
def declare (name : String) (type : ValueType) (kind : SymbolKind) (initialized : Bool) :
    Check Unit :=
  update fun table =>
    let (index, declared) := table.declare name type kind
    if initialized then declared.initializeAt index else declared

/-- The type of a name.  The names of the truth values need no declaration. -/
def identifier (name : String) : Check ValueType := do
  match ← ask (·.lookup? name) with
  | some symbol =>
    if ¬ symbol.initialized then warn (.usedBeforeInitialization name)
    pure symbol.type
  | none =>
    if name = "true" ∨ name = "false" then pure .boolean
    else report (.undefinedVariable name)

/-- The type of an operation, by the types of its operands. -/
def binary (operator : BinaryOperator) (lhs rhs : ValueType) : Check ValueType :=
  if lhs = .error ∨ rhs = .error then pure .error
  else if operator = .add ∧ (lhs = .string ∨ rhs = .string) then pure .string
  else if operator.isArithmetic then
    if lhs = .number ∧ rhs = .number then pure .number
    else if lhs = .any ∨ rhs = .any then pure .any
    else report (.arithmeticOperands operator lhs rhs)
  else if lhs = rhs ∨ lhs = .any ∨ rhs = .any then pure .boolean
  else report (.comparisonOperands operator lhs rhs)

mutual

/-- The type of an expression. -/
def expression : Expr → Check ValueType
  | .literal (.number _) => pure .number
  | .literal (.string _) => pure .string
  | .identifier name => identifier name
  | .binary operator lhs rhs => do
    let lhsType ← expression lhs
    let rhsType ← expression rhs
    binary operator lhsType rhsType
  | .call name arguments => do
    let symbol ← ask (·.lookup? name)
    let isFunction := symbol.any fun symbol => symbol.kind = .function
    if ¬ isFunction then
      let _ ← report (.undefinedFunction name)
    callArguments isFunction 1 arguments
    pure .any

/-- Check the arguments of a call from a given number on.  They are noted only
if the callee is a function. -/
def callArguments (noted : Bool) (number : Nat) : List Expr → Check Unit
  | [] => pure ()
  | argument :: rest => do
    let type ← expression argument
    if noted then note (.argument number type)
    callArguments noted (number + 1) rest

end

/-- Introduce a variable of a known type, unless its name is taken. -/
def introduce (name : String) (type : ValueType) (initialized : Bool) : Check Unit := do
  match ← ask (·.conflict? name) with
  | some existing =>
    let _ ← report (.alreadyDefined name existing.scope)
  | none =>
    declare name type .variable initialized
    note (.declared name type)

/-- Check the declaration of a variable.  Without an initial value it can hold
anything later on. -/
def declaration (name : String) : Option Expr → Check Unit
  | none => introduce name .any false
  | some value => do introduce name (← expression value) true

/-- A value of the first type may be stored where the second is declared. -/
def compatible (value target : ValueType) : Bool :=
  value = target ∨ value = .any ∨ value = .error ∨ target = .any ∨ target = .error

/-- Check an assignment. -/
def assignment (name : String) (value : Expr) : Check Unit := do
  let type ← expression value
  match ← ask (·.lookup? name) with
  | none =>
    let _ ← report (.undefinedVariable name)
  | some symbol =>
    if compatible type symbol.type then
      update (·.initializeName name)
      note (.assigned name symbol.type)
    else
      let _ ← report (.assignMismatch name type symbol.type)

/-- Check a condition. -/
def condition (construct : Construct) (value : Expr) : Check Unit := do
  let found ← expression value
  if ¬ (found = .boolean ∨ found = .any ∨ found = .error) then
    let _ ← report (.nonBooleanCondition construct found)

/-- Declare the parameters of a function. -/
def declareParameters : List String → Check Unit
  | [] => pure ()
  | name :: rest => do
    declare name .any .parameter true
    declareParameters rest

/-- What is checked inside has a block scope of its own. -/
def inBlock (inside : Check Unit) : Check Unit := do
  update (·.openBlock)
  inside
  update (·.closeScope)

mutual

/-- Check a statement. -/
def statement : Statement → Check Unit
  | .declaration name initial => declaration name initial
  | .assignment name value => assignment name value
  | .ifThen test body => do
    condition .conditional test
    inBlock (statements body)
  | .ifElse test body alternative => do
    condition .conditional test
    inBlock (statements body)
    inBlock (statements alternative)
  | .repeatWhile test body => do
    condition .loop test
    inBlock (statements body)
  | .block body => inBlock (statements body)
  | .function name parameters body => do
    if (← ask (·.conflict? name)).isSome then
      let _ ← report (.functionAlreadyDefined name)
    else
      declare name .function .function true
      note (.functionDeclared name parameters.length)
      update (·.openFunction name)
      declareParameters parameters
      inBlock (statements body)
      update (·.closeScope)
  | .giveBack none => note (.returned .void)
  | .giveBack (some value) => do
    let type ← expression value
    note (.returned type)
  | .print value => do
    let type ← expression value
    note (.printed type)
  | .expression value => do
    let _ ← expression value

/-- Check statements one after the other. -/
def statements : List Statement → Check Unit
  | [] => pure ()
  | first :: rest => do
    statement first
    statements rest

end

end Check

/-- Check a whole program from an empty symbol table. -/
def Program.check (program : Program) (scoping : Scoping) : Findings :=
  ((Check.statements program.body).run { table := SymbolTable.empty scoping }).2

end BanglaScript
