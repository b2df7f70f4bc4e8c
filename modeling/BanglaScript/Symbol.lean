/-!
# Symbols

A symbol is what is known about a declared name: the type of its value, what
kind of thing it names, the scope it was declared in and whether it has been
given a value.
-/

namespace BanglaScript

/-- The types that checking distinguishes. -/
inductive ValueType where
  | number
  | string
  | boolean
  | function
  /-- Nothing is known; every use is allowed. -/
  | any
  /-- The value of a phrase that has already been reported. -/
  | error
  /-- The absence of a value. -/
  | void
deriving DecidableEq

namespace ValueType

/-- Every type once. -/
def all : List ValueType := [number, string, boolean, function, any, error, void]

/-- The name of the type in reports. -/
def name : ValueType → String
  | number => "number"
  | string => "string"
  | boolean => "boolean"
  | function => "function"
  | any => "any"
  | error => "error"
  | void => "void"

end ValueType

/-- What a name stands for. -/
inductive SymbolKind where
  | variable
  | function
  | parameter
deriving DecidableEq

namespace SymbolKind

/-- Every kind once. -/
def all : List SymbolKind := [.variable, .function, .parameter]

/-- The name of the kind in reports. -/
def name : SymbolKind → String
  | .variable => "variable"
  | .function => "function"
  | .parameter => "parameter"

end SymbolKind

/-- A declared name. -/
structure Symbol where
  name : String
  type : ValueType
  kind : SymbolKind
  /-- The name of the scope that holds the declaration. -/
  scope : String
  initialized : Bool := false
deriving DecidableEq

namespace Symbol

/-- The symbol once it has a value. -/
def withValue (symbol : Symbol) : Symbol := { symbol with initialized := true }

/-- One row of a symbol listing. -/
def render (symbol : Symbol) : String :=
  let mark := if symbol.initialized then "✓" else "⚠"
  let type := symbol.type.name
  let kind := symbol.kind.name
  s!"  {mark} {symbol.name}: {type} ({kind}) in scope '{symbol.scope}'\n"

end Symbol

end BanglaScript
