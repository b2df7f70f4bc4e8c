import BanglaScript.Text.Lines

/-!
# Requests on the command line

A request says what to compile and what to write.  It is read from arguments:
long options take their value behind an equals sign or as the next argument,
short ones also directly behind their letter, and two hyphens end the options.
An option whose value is left out takes its standard one, if it has one.  No
option may be given twice.
-/

namespace BanglaScript

/-- What a request asks to be written. -/
inductive Product where
  | tokens
  | tree
  | symbols
  | code
  | optimized
  | script
deriving DecidableEq

namespace Product

/-- Every product once. -/
def all : List Product := [tokens, tree, symbols, code, optimized, script]

/-- The word for the product on the command line. -/
def word : Product → String
  | tokens => "tokens"
  | tree => "ast"
  | symbols => "symbols"
  | code => "ir"
  | optimized => "optimized"
  | script => "js"

/-- The product that a word names. -/
def ofWord? (word : String) : Option Product := all.find? fun product => product.word = word

end Product

/-- What the command line asks for. -/
structure Request where
  file : Option String := none
  demo : Option String := none
  output : Option String := none
  product : Option Product := none
  listDemos : Bool := false
  lexicalScopes : Bool := false
  noOptimize : Bool := false
  verbose : Bool := false
deriving DecidableEq

namespace Request

/-- The options that stand alone. -/
inductive Flag where
  | listDemos
  | lexicalScopes
  | noOptimize
  | verbose
deriving DecidableEq

/-- The options that take a value. -/
inductive Setting where
  | demo
  | output
  | product
deriving DecidableEq

/-- What a setting is when it is named without a value. -/
def Setting.standard? : Setting → Option String
  | .product => some Product.script.word
  | _ => none

/-- An option of the command line. -/
inductive Choice where
  | flag (flag : Flag)
  | setting (setting : Setting)
deriving DecidableEq

/-- The option with a long name. -/
def ofLongName? : String → Option Choice
  | "demo" => some (.setting .demo)
  | "output" => some (.setting .output)
  | "emit" => some (.setting .product)
  | "list-demos" => some (.flag .listDemos)
  | "lexical-scopes" => some (.flag .lexicalScopes)
  | "no-optimize" => some (.flag .noOptimize)
  | "verbose" => some (.flag .verbose)
  | _ => none

/-- The option with a short name. -/
def ofShortName? : Char → Option Choice
  | 'o' => some (.setting .output)
  | 'v' => some (.flag .verbose)
  | _ => none

/-- Raise a flag that has not been raised. -/
def raise (request : Request) : Flag → Option Request
  | .listDemos => if request.listDemos then none else some { request with listDemos := true }
  | .lexicalScopes =>
    if request.lexicalScopes then none else some { request with lexicalScopes := true }
  | .noOptimize => if request.noOptimize then none else some { request with noOptimize := true }
  | .verbose => if request.verbose then none else some { request with verbose := true }

/-- Give a setting its value, unless it has one. -/
def set (request : Request) (value : String) : Setting → Option Request
  | .demo => if request.demo.isSome then none else some { request with demo := some value }
  | .output => if request.output.isSome then none else some { request with output := some value }
  | .product =>
    if request.product.isSome then none
    else (Product.ofWord? value).map fun product => { request with product := some product }

/-- Name the file to compile, unless one is named. -/
def setFile (request : Request) (name : String) : Option Request :=
  if request.file.isSome then none else some { request with file := some name }

/-- What an argument starts with decides what it is: one hyphen alone is a
name like any other. -/
def isOption (argument : String) : Bool :=
  match argument.toList with
  | '-' :: _ :: _ => true
  | _ => false

/-- A value behind an option, without the equals signs in front of it. -/
def attachedValue (characters : List Char) : String :=
  String.ofList (characters.dropWhile (· = '='))

/-- What remains to be done after a group of options has been read. -/
inductive Pending where
  | nothing
  | value (setting : Setting)
deriving DecidableEq

/-- Read a group of short options.  The first one that takes a value takes the
rest of the group, or else the next argument. -/
def readShort (request : Request) : List Char → Option (Request × Pending)
  | [] => some (request, .nothing)
  | letter :: rest => do
    match ← ofShortName? letter with
    | .flag flag => readShort (← request.raise flag) rest
    | .setting setting =>
      if rest.isEmpty then
        some (request, .value setting)
      else
        let changed ← request.set (attachedValue rest) setting
        some (changed, .nothing)

/-- Read a long option, given without its hyphens. -/
def readLong (request : Request) (characters : List Char) : Option (Request × Pending) := do
  let name := characters.takeWhile (· ≠ '=')
  let value := characters.drop name.length
  match ← ofLongName? (String.ofList name) with
  | .flag flag =>
    let changed ← request.raise flag
    some (changed, .nothing)
  | .setting setting =>
    if value.isEmpty then
      some (request, .value setting)
    else
      let changed ← request.set (attachedValue value) setting
      some (changed, .nothing)

/-- Read an argument that is an option. -/
def readOption (request : Request) (argument : String) : Option (Request × Pending) :=
  let characters := argument.toList
  let name := characters.dropWhile (· = '-')
  match characters with
  | '-' :: '-' :: _ => readLong request name
  | _ => readShort request name

/-- Read arguments that are names only. -/
def readNames (request : Request) : List String → Option Request
  | [] => some request
  | name :: rest => do readNames (← request.setFile name) rest

/-- Give a setting that gets no value its standard one. -/
def settle (request : Request) : Pending → Option Request
  | .nothing => some request
  | .value setting => do request.set (← setting.standard?) setting

/-- Read arguments one after the other, with a setting that still waits for
its value, if any. -/
def readFrom (request : Request) (pending : Pending) : List String → Option Request
  | [] => request.settle pending
  | argument :: rest => do
    match pending, isOption argument with
    | .value setting, false => readFrom (← request.set argument setting) .nothing rest
    | .nothing, false => readFrom (← request.setFile argument) .nothing rest
    | _, true =>
      let settled ← request.settle pending
      if argument = "--" then
        readNames settled rest
      else
        let (changed, waiting) ← settled.readOption argument
        readFrom changed waiting rest

/-- The request of a command line, or nothing if it is not a proper one. -/
def ofArguments? (arguments : List String) : Option Request :=
  readFrom {} .nothing arguments

/-- What is shown to someone whose command line is not a proper one. -/
def usage : String :=
  Text.join "\n"
    ["usage: [OPTIONS] [FILE]",
      "  --demo NAME         compile a demo instead of a file",
      "  --list-demos        print the names of the demos",
      "  -o, --output FILE   write to a file instead of the standard output",
      "  --emit KIND         what to write: " ++ Text.join ", " (Product.all.map Product.word),
      "  --lexical-scopes    give blocks and functions scopes of their own",
      "  --no-optimize       skip the optimizer",
      "  -v, --verbose       log the progress of the compiler"]

end Request

end BanglaScript
