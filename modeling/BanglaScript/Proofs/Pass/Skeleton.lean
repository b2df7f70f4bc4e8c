import BanglaScript.Proofs.Pass.Fold
import BanglaScript.Proofs.Pass.Held
import Mathlib.Algebra.GroupWithZero.Nat

/-!
# What the passes leave alone

Control flow, calls and effects stay as they are, with their operands, and the
variables are assigned in the same order at the same places among them.  Only dead
code elimination makes code shorter, so no other pass is ever reported.
-/

namespace BanglaScript

open List

/-- What stands in code besides the computation of temporaries. -/
inductive Landmark where
  /-- An instruction of control flow, of a call or with an effect. -/
  | action (instruction : Instruction)
  /-- An assignment to a variable, whatever its value. -/
  | assigned (name : String)
deriving DecidableEq

namespace Landmark

def action? : Landmark → Option Instruction
  | .action instruction => some instruction
  | .assigned _ => none

end Landmark

/-- To write a variable is a landmark, to write a temporary is none. -/
def Place.landmark? : Place → Option Landmark
  | .variable name => some (.assigned name)
  | .temporary _ => none

namespace Instruction

/-- The instruction takes part in control flow or calls, or has an effect. -/
def isAction : Instruction → Bool
  | .branch _ _ _ | .jump _ | .label _ | .functionStart _ _ | .functionEnd _ | .push _
  | .call _ _ | .pop _ | .giveBack _ | .print _ => true
  | .assign _ _ | .binary _ _ _ _ => false

def landmark? : Instruction → Option Landmark
  | .assign target _ => target.landmark?
  | .binary _ _ _ _ => none
  | instruction => some (.action instruction)

end Instruction

namespace Code

/-- The instructions of control flow, calls and effects, in order. -/
def actions (code : List Instruction) : List Instruction := code.filter Instruction.isAction

/-- The actions of the code and, between them, the variables that are assigned. -/
def landmarks (code : List Instruction) : List Landmark := code.filterMap Instruction.landmark?

theorem actions_eq_filterMap (code : List Instruction) :
    actions code = (landmarks code).filterMap Landmark.action? := by
  rw [landmarks, filterMap_filterMap, actions, ← filterMap_eq_filter]
  congr 1
  funext instruction
  match instruction with
  | .assign (.variable _) _ | .assign (.temporary _) _ | .binary _ _ _ _ | .branch _ _ _
  | .jump _ | .label _ | .functionStart _ _ | .functionEnd _ | .push _ | .call _ _ | .pop _
  | .giveBack _ | .print _ => rfl

end Code

namespace Pass

/-- Of a computed value only its place is a landmark. -/
theorem landmark?_of_computed? {first : Instruction} {place : Place}
    (computed : first.computed? = some place) : first.landmark? = place.landmark? := by
  cases first <;> cases computed <;> rfl

theorem Rewrites.landmarks_eq {code result : List Instruction} (rewrites : Rewrites code result) :
    Code.landmarks result = Code.landmarks code :=
  rewrites.filterMap_eq Place.landmark? landmark?_of_computed? fun _ => rfl

/-! ## Lengths -/

theorem length_dropUnread_le (code : List Instruction) :
    (dropUnread code).length ≤ code.length :=
  length_filter_le _ code

/-- All passes but dead code elimination replace instructions one by one. -/
theorem length_run_of_ne {pass : Pass} (other : pass ≠ .deadCode) (code : List Instruction) :
    (pass.run code).length = code.length := by
  cases pass with
  | constantFolding => exact (standsFor_foldConstants code).size_eq
  | deadCode => exact absurd rfl other
  | reuse => exact length_reuseFrom [] code
  | strength => exact length_map _

theorem length_run_le (pass : Pass) (code : List Instruction) :
    (pass.run code).length ≤ code.length := by
  by_cases dead : pass = .deadCode
  · rw [dead]
    exact length_dropUnread_le code
  · exact Nat.le_of_eq (length_run_of_ne dead code)

/-- The reports account for the instructions that are missing. -/
theorem length_add_sum_removed (passes : List Pass) (code : List Instruction) :
    (runAll passes code).1.length + ((runAll passes code).2.map Report.removed).sum =
      code.length := by
  induction passes generalizing code with
  | nil => rfl
  | cons pass rest ih =>
    have here := length_run_le pass code
    have later := ih (pass.run code)
    simp only [runAll]
    split
    · simp only [map_cons, sum_cons]
      omega
    · omega

theorem pass_eq_deadCode (passes : List Pass) (code : List Instruction) :
    ∀ report ∈ (runAll passes code).2, report.pass = .deadCode := by
  induction passes generalizing code with
  | nil => exact forall_mem_nil _
  | cons pass rest ih =>
    simp only [runAll]
    split
    case isTrue removed =>
      refine forall_mem_cons.mpr ⟨?_, ih _⟩
      refine Decidable.byContradiction fun other => Nat.lt_irrefl 0 ?_
      rwa [length_run_of_ne other, Nat.sub_self] at removed
    case isFalse => exact ih _

/-- Whatever the code, every pass leaves control flow, calls and effects as they are and
the assigned variables at their places among them; so does the whole optimizer, and its
reports, which name dead code elimination only, add up to the instructions that it
removed. -/
theorem landmarks_and_reports (code : List Instruction) :
    (∀ pass : Pass, Code.actions (pass.run code) = Code.actions code ∧
      Code.landmarks (pass.run code) = Code.landmarks code) ∧
    Code.landmarks (optimizeWithReport code).1 = Code.landmarks code ∧
    (optimizeWithReport code).1.length + ((optimizeWithReport code).2.map Report.removed).sum =
      code.length ∧
    ∀ report ∈ (optimizeWithReport code).2, report.pass = .deadCode := by
  refine ⟨fun pass => ?_, ?_, length_add_sum_removed all code, pass_eq_deadCode all code⟩
  · have same := (rewrites_run pass code).landmarks_eq
    rw [Code.actions_eq_filterMap, Code.actions_eq_filterMap, same]
    exact ⟨rfl, rfl⟩
  · exact runAll_of_rewrites (fun _ _ rewrites kept => rewrites.landmarks_eq.trans kept) all rfl

/-- A temporary that nothing reads is dropped and reported. -/
theorem landmarks_and_reports_unread :
    let code : List Instruction := [.assign (.temporary 1) (.string "a"), .print (.string "b")]
    (optimizeWithReport code).2 = [⟨.deadCode, 1⟩] ∧
      Code.landmarks (optimizeWithReport code).1 = [.action (.print (.string "b"))] ∧
      Report.pass ⟨.deadCode, 1⟩ = .deadCode :=
  have kept := landmarks_and_reports [.assign (.temporary 1) (.string "a"), .print (.string "b")]
  ⟨by decide, kept.2.1, kept.2.2.2 _ (by decide)⟩

end Pass

end BanglaScript
