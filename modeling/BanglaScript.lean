import BanglaScript.Main
import BanglaScript.Tree.Record
import BanglaScript.Proofs.Lowering.Meaning
import BanglaScript.Proofs.Script.Locals
import BanglaScript.Proofs.Pass.Reuse
import BanglaScript.Proofs.Typing.Soundness
import BanglaScript.Proofs.Structure.Traversal
import BanglaScript.Proofs.Script.OneStore
import BanglaScript.Proofs.Resolution.Alike
import BanglaScript.Proofs.Symbol.Linked
import BanglaScript.Proofs.Check.Distinct
import BanglaScript.Proofs.Lowering.Operands
import BanglaScript.Proofs.Lowering.Live
import BanglaScript.Proofs.Pass.Availability
import BanglaScript.Proofs.Parser.Layers
import BanglaScript.Proofs.Parser.Ending
import BanglaScript.Proofs.Check.Surrounded
import BanglaScript.Proofs.Lowering.Kept
import BanglaScript.Proofs.Diagnostic
import BanglaScript.Proofs.Script.Literals
import BanglaScript.Proofs.Pass.Skeleton
import BanglaScript.Proofs.Parser.Loops
import BanglaScript.Proofs.Tree.Outline
