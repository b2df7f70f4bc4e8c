import BanglaScript.Pass.DeadCode
import BanglaScript.Pass.Fold
import BanglaScript.Pass.Reuse
import BanglaScript.Pass.Strength

/-!
# The optimizer

Four passes run one after the other, each once over the whole code.  A report
says how many instructions a pass removed; passes that removed none are not
reported.
-/

namespace BanglaScript

/-- The passes of the optimizer. -/
inductive Pass where
  | constantFolding
  | deadCode
  | reuse
  | strength
deriving DecidableEq

namespace Pass

/-- The passes in the order in which they run. -/
def all : List Pass := [.constantFolding, .deadCode, .reuse, .strength]

/-- The name of the pass in reports. -/
def name : Pass → String
  | .constantFolding => "constant folding"
  | .deadCode => "dead code elimination"
  | .reuse => "common subexpression elimination"
  | .strength => "strength reduction"

/-- Run one pass. -/
def run : Pass → List Instruction → List Instruction
  | .constantFolding => foldConstants
  | .deadCode => dropUnread
  | .reuse => reuseHeld
  | .strength => shiftPowers

/-- How many instructions a pass removed. -/
structure Report where
  pass : Pass
  removed : Nat
deriving DecidableEq

/-- The wording of a report. -/
def Report.render (report : Report) : String :=
  report.pass.name ++ ": removed " ++ toString report.removed ++ " instructions"

/-- Run passes one after the other and report what they removed. -/
def runAll : List Pass → List Instruction → List Instruction × List Report
  | [], code => (code, [])
  | pass :: rest, code =>
    let improved := pass.run code
    let removed := code.length - improved.length
    let (result, reports) := runAll rest improved
    (result, if 0 < removed then ⟨pass, removed⟩ :: reports else reports)

end Pass

/-- Run the whole optimizer and report what the passes removed. -/
def optimizeWithReport (code : List Instruction) : List Instruction × List Pass.Report :=
  Pass.runAll Pass.all code

/-- Run the whole optimizer. -/
def optimize (code : List Instruction) : List Instruction := (optimizeWithReport code).1

end BanglaScript
