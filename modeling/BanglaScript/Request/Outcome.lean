import BanglaScript.Compile
import BanglaScript.Demo
import BanglaScript.Request
import BanglaScript.Tree.Outline

/-!
# Carrying requests out

Carrying a request out gives the records for the standard error stream and
either an output or the reason why there is none.  The texts of files come from
a function that is asked for them, so nothing here depends on a file system.
-/

namespace BanglaScript

/-- The text of a product. -/
def Product.text (compilation : Compilation) : Product → String
  | .tokens => Token.listing compilation.tokens
  | .tree => compilation.program.render
  | .symbols => compilation.findings.table.render
  | .code => Instruction.listing compilation.code
  | .optimized => Instruction.listing compilation.optimized
  | .script => compilation.script

/-- The choices of the compilation. -/
def Request.options (request : Request) : Options :=
  { scoping := if request.lexicalScopes then .lexical else .flat
    optimize := ¬ request.noOptimize }

/-- How much a record matters. -/
inductive Severity where
  | error
  | warning
  | information
  | debug
deriving DecidableEq

/-- A record for the standard error stream. -/
structure LogRecord where
  severity : Severity
  text : String
deriving DecidableEq

/-- The wording of a record.  Only records for debugging name their origin. -/
def LogRecord.render (record : LogRecord) : String :=
  match record.severity with
  | .error => "[ERROR] " ++ record.text
  | .warning => "[WARN] " ++ record.text
  | .information => "[INFO] " ++ record.text
  | .debug => "[DEBUG] (1) banglac: " ++ record.text

/-- A text and the file it goes to; without a file it goes to the standard
output. -/
structure Output where
  text : String
  file : Option String := none
deriving DecidableEq

/-- Why a file cannot be read or written. -/
inductive AccessFault where
  | missing
  | permissionDenied
  | notDirectory
  | isDirectory
  | nameTooLong
  | other (description : String)
deriving DecidableEq

/-- The wording of the fault, with its number in the operating system. -/
def AccessFault.message : AccessFault → String
  | .missing => "No such file or directory (os error 2)"
  | .permissionDenied => "Permission denied (os error 13)"
  | .notDirectory => "Not a directory (os error 20)"
  | .isDirectory => "Is a directory (os error 21)"
  | .nameTooLong => "File name too long (os error 36)"
  | .other description => description

/-- Why a request has no output. -/
inductive Failure where
  | nothingToCompile
  | unknownDemo (name : String)
  | unreadable (file : String) (fault : AccessFault)
  | unwritable (file : String) (fault : AccessFault)
  | uncompilable (error : CompileError)
deriving DecidableEq

/-- The wording of the failure.  The errors of an invalid program stand in the
records, so only their number is named. -/
def Failure.message : Failure → String
  | .nothingToCompile => "nothing to compile: pass a file or --demo NAME"
  | .unknownDemo name =>
    "there is no demo called " ++ Text.escaped name ++ " (see --list-demos)"
  | .unreadable file fault => "could not read " ++ file ++ ": " ++ fault.message
  | .unwritable file fault => "could not write " ++ file ++ ": " ++ fault.message
  | .uncompilable (.invalid findings) =>
    "compilation failed with " ++ toString findings.errors.length ++ " semantic errors"
  | .uncompilable error => error.message

/-- The result of a request: records, and an output or a failure. -/
structure Outcome where
  records : List LogRecord
  result : Except Failure Output

/-- The record form of the choices of a compilation. -/
def Options.record (options : Options) : String :=
  let scoping :=
    match options.scoping with
    | .flat => "Flat"
    | .lexical => "Lexical"
  "Options \x7b scoping: " ++ scoping ++ ", optimize: " ++ toString options.optimize ++ " \x7d"

/-- A text that ends its last line. -/
def endLastLine (text : String) : String :=
  if text.toList.getLast?.all (· = '\n') then text else text ++ "\n"

namespace Request

/-- The source that a request names; a demo goes before a file.  Files are read
by `read`, which gives their text or the reason why it cannot be had. -/
def source (request : Request) (read : String → Except AccessFault String) :
    Except Failure Source :=
  match request.demo, request.file with
  | some name, _ =>
    match Demo.find? name with
    | some demo => .ok { text := demo.source }
    | none => .error (.unknownDemo name)
  | none, some file =>
    match read file with
    | .ok text => .ok { file := some file, text := text }
    | .error fault => .error (.unreadable file fault)
  | none, none => .error .nothingToCompile

/-- The records that precede a compilation. -/
def openingRecords (request : Request) : List LogRecord :=
  if request.verbose then [⟨.debug, "compiling with " ++ request.options.record⟩] else []

/-- The records of errors. -/
def errorRecords (findings : Findings) : List LogRecord :=
  findings.errors.map fun error => ⟨.error, error.message⟩

/-- The records of warnings. -/
def warningRecords (findings : Findings) : List LogRecord :=
  findings.warnings.map fun warning => ⟨.warning, warning.message⟩

/-- The records of what the optimizer removed. -/
def reportRecords (reports : List Pass.Report) : List LogRecord :=
  reports.map fun report => ⟨.information, report.render⟩

/-- The record of a summary. -/
def summaryRecord (summary : Summary) : LogRecord :=
  ⟨.information, "summary:\n" ++ summary.render⟩

/-- Compile a source.  The output is the product that the request asks for. -/
def compileSource (request : Request) (source : Source) : Outcome :=
  let opening := request.openingRecords
  match compile request.options source with
  | .error error =>
    let findings :=
      match error with
      | .invalid findings => errorRecords findings ++ warningRecords findings
      | _ => []
    ⟨opening ++ findings, .error (.uncompilable error)⟩
  | .ok compilation =>
    let text := (request.product.getD .script).text compilation
    ⟨opening ++ warningRecords compilation.findings ++ reportRecords compilation.reports ++
        [summaryRecord compilation.summary],
      .ok { text := endLastLine text, file := request.output }⟩

/-- Carry a request out.  The list of demos goes before everything else. -/
def run (request : Request) (read : String → Except AccessFault String) : Outcome :=
  if request.listDemos then
    ⟨[], .ok { text := String.join (Demo.all.map fun demo => demo.name ++ "\n") }⟩
  else
    match request.source read with
    | .error failure => ⟨[], .error failure⟩
    | .ok source => request.compileSource source

end Request

end BanglaScript
