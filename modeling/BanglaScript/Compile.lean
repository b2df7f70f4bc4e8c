import BanglaScript.Check
import BanglaScript.Instruction.Lowering
import BanglaScript.Parser.Statement
import BanglaScript.Pass
import BanglaScript.Script.Emission
import BanglaScript.Token.Lexer

/-!
# Compilation

A source text is tokenized, parsed, checked, lowered, optimized and written as
a script.  The first lexical or syntax error ends the compilation; so do the
findings of a check that makes the program invalid.
-/

namespace BanglaScript

/-- The choices of a compilation. -/
structure Options where
  scoping : Scoping := .flat
  optimize : Bool := true
deriving DecidableEq

/-- Why there is no script. -/
inductive CompileError where
  | lexical (error : LexicalError)
  | grammatical (error : SyntaxError)
  | invalid (findings : Findings)
deriving DecidableEq

/-- The wording of the error. -/
def CompileError.message : CompileError → String
  | .lexical error => "lexical error: " ++ error.render
  | .grammatical error => "syntax error: " ++ error.render
  | .invalid findings =>
    "semantic analysis found " ++ toString findings.errors.length ++ " errors"

/-- Everything that a successful compilation has produced. -/
structure Compilation where
  tokens : List Token
  program : Program
  findings : Findings
  code : List Instruction
  optimized : List Instruction
  reports : List Pass.Report
  script : String

/-- The optimized code and the reports; the code itself if the optimizer is
switched off. -/
def Options.improve (options : Options) (code : List Instruction) :
    List Instruction × List Pass.Report :=
  if options.optimize then optimizeWithReport code else (code, [])

/-- Compile a source text. -/
def compile (options : Options) (source : Source) : Except CompileError Compilation :=
  match tokenize source.text with
  | .error error => .error (.lexical (error.attach source))
  | .ok tokens =>
    match parse tokens with
    | .error error => .error (.grammatical (error.attach source))
    | .ok program =>
      let findings := program.check options.scoping
      if findings.isValid then
        let code := program.lower
        let (optimized, reports) := options.improve code
        .ok
          { tokens := tokens
            program := program
            findings := findings
            code := code
            optimized := optimized
            reports := reports
            script := (Script.ofCode optimized).render }
      else
        .error (.invalid findings)

/-- The sizes of what a compilation has produced. -/
structure Summary where
  /-- The end of input is not counted. -/
  tokens : Nat
  nodes : Nat
  symbols : Nat
  instructions : Nat
  optimizedInstructions : Nat
  scriptLines : Nat
deriving DecidableEq

namespace Summary

/-- The wording of a summary.  The instructions that the optimizer saved are
named only if there are any. -/
def render (summary : Summary) : String :=
  let saved := summary.instructions - summary.optimizedInstructions
  Text.join "\n"
    (["Tokens generated: " ++ toString summary.tokens,
      "AST nodes: " ++ toString summary.nodes,
      "Variables declared: " ++ toString summary.symbols,
      "Intermediate instructions: " ++ toString summary.instructions,
      "Optimized instructions: " ++ toString summary.optimizedInstructions,
      "Generated code lines: " ++ toString summary.scriptLines] ++
      if 0 < saved then ["Instructions optimized away: " ++ toString saved] else [])

end Summary

/-- The sizes of the parts of a compilation. -/
def Compilation.summary (compilation : Compilation) : Summary :=
  { tokens := compilation.tokens.length - 1
    nodes := compilation.program.size
    symbols := compilation.findings.table.symbols.length
    instructions := compilation.code.length
    optimizedInstructions := compilation.optimized.length
    scriptLines := (Text.lines compilation.script).length }

end BanglaScript
