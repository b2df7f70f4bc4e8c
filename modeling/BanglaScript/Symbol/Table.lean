import BanglaScript.Symbol

/-!
# Symbol tables

A table numbers its symbols in the order of their first declaration.  Open
scopes map names to these numbers; a scope that has been left is forgotten,
its symbols are not.

Under flat scoping there is one namespace: every declaration goes into the
global scope and scopes only label where it was made.  Under lexical scoping a
declaration goes into the innermost open scope and a name is looked up from
there outwards.  In either case a second declaration of a name in the scope
that receives it replaces the first one in place.
-/

namespace BanglaScript

/-- How declarations and lookups use the open scopes. -/
inductive Scoping where
  | flat
  | lexical
deriving DecidableEq

/-- A named scope and the numbers of the symbols it maps names to. -/
structure Scope where
  name : String
  bindings : List (String × Nat) := []
deriving DecidableEq

namespace Scope

/-- The number of the symbol that the scope maps a name to. -/
def find? (scope : Scope) (name : String) : Option Nat := scope.bindings.lookup name

/-- The scope with one more name. -/
def bind (scope : Scope) (name : String) (index : Nat) : Scope :=
  { scope with bindings := (name, index) :: scope.bindings }

end Scope

/-- The symbols of a program and the scopes that are open.  The global scope
is always open; the inner ones are listed from the innermost outwards. -/
structure SymbolTable where
  scoping : Scoping
  symbols : List Symbol := []
  globalScope : Scope := { name := "global" }
  innerScopes : List Scope := []
  /-- How many block scopes have been entered so far. -/
  blockCount : Nat := 0
deriving DecidableEq

namespace SymbolTable

/-- The table before any declaration. -/
def empty (scoping : Scoping) : SymbolTable := { scoping := scoping }

/-- The innermost open scope. -/
def innermostScope (table : SymbolTable) : Scope :=
  match table.innerScopes with
  | [] => table.globalScope
  | scope :: _ => scope

/-- The number of open scopes. -/
def depth (table : SymbolTable) : Nat := table.innerScopes.length + 1

/-- Open a scope inside the current one. -/
def openScope (table : SymbolTable) (name : String) : SymbolTable :=
  { table with innerScopes := { name := name } :: table.innerScopes }

/-- Open the scope of a block; blocks are numbered through the program. -/
def openBlock (table : SymbolTable) : SymbolTable :=
  let count := table.blockCount + 1
  { table with blockCount := count }.openScope s!"block_{count}"

/-- Open the scope of a function. -/
def openFunction (table : SymbolTable) (name : String) : SymbolTable :=
  table.openScope ("function_" ++ name)

/-- Leave the innermost scope.  The global scope is never left. -/
def closeScope (table : SymbolTable) : SymbolTable :=
  { table with innerScopes := table.innerScopes.tail }

/-- The scope that receives a declaration. -/
def receivingScope (table : SymbolTable) : Scope :=
  match table.scoping with
  | .flat => table.globalScope
  | .lexical => table.innermostScope

/-- The scopes that a lookup searches, in order. -/
def searchedScopes (table : SymbolTable) : List Scope :=
  match table.scoping with
  | .flat => [table.globalScope]
  | .lexical => table.innerScopes ++ [table.globalScope]

/-- Change the scope that receives declarations. -/
def mapReceivingScope (table : SymbolTable) (change : Scope → Scope) : SymbolTable :=
  match table.scoping, table.innerScopes with
  | .lexical, scope :: outer => { table with innerScopes := change scope :: outer }
  | _, _ => { table with globalScope := change table.globalScope }

/-- The number of the symbol that a name refers to. -/
def resolve? (table : SymbolTable) (name : String) : Option Nat :=
  table.searchedScopes.findSome? fun scope => scope.find? name

/-- The symbol with a number. -/
def get? (table : SymbolTable) (index : Nat) : Option Symbol := table.symbols[index]?

/-- The symbol that a name refers to. -/
def lookup? (table : SymbolTable) (name : String) : Option Symbol :=
  (table.resolve? name).bind table.get?

/-- The symbol that a new declaration of the name would replace. -/
def conflict? (table : SymbolTable) (name : String) : Option Symbol :=
  (table.receivingScope.find? name).bind table.get?

/-- Declare a name and give the number of its symbol. -/
def declare (table : SymbolTable) (name : String) (type : ValueType) (kind : SymbolKind) :
    Nat × SymbolTable :=
  let symbol : Symbol :=
    { name := name, type := type, kind := kind, scope := table.innermostScope.name }
  match table.receivingScope.find? name with
  | some index => (index, { table with symbols := table.symbols.set index symbol })
  | none =>
    let index := table.symbols.length
    (index,
      { table with symbols := table.symbols ++ [symbol] }.mapReceivingScope fun scope =>
        scope.bind name index)

/-- Record that the symbol with a number has a value. -/
def initializeAt (table : SymbolTable) (index : Nat) : SymbolTable :=
  { table with symbols := table.symbols.modify index Symbol.withValue }

/-- Record that the symbol a name refers to has a value. -/
def initializeName (table : SymbolTable) (name : String) : SymbolTable :=
  match table.resolve? name with
  | none => table
  | some index => table.initializeAt index

/-- The symbols in the order of their first declaration, one a line. -/
def render (table : SymbolTable) : String :=
  "Symbol Table:\n" ++
    if table.symbols.isEmpty then "  (empty)\n"
    else String.join (table.symbols.map Symbol.render)

end SymbolTable

end BanglaScript
