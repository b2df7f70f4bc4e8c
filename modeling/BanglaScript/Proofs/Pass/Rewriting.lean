import BanglaScript.Pass
import BanglaScript.Proofs.Code.Segment

/-!
# What the passes change

A pass may compute a value in another way, as long as the value goes to the
same place, and it may drop an assignment to a temporary.  Everything else
stays where it is.  Each of the passes keeps to this, whatever the code.
-/

namespace BanglaScript

open List

namespace Instruction

/-- The place of the value that an assignment or an operation computes. -/
def computed? : Instruction → Option Place
  | .assign target _ => some target
  | .binary _ target _ _ => some (.temporary target)
  | _ => none

end Instruction

namespace Pass

/-- The second code comes from the first by computing values differently and
by dropping assignments to temporaries. -/
inductive Rewrites : List Instruction → List Instruction → Prop
  | nil : Rewrites [] []
  | keep {code result : List Instruction} (instruction : Instruction)
      (rest : Rewrites code result) : Rewrites (instruction :: code) (instruction :: result)
  | compute {code result : List Instruction} {first second : Instruction} {place : Place}
      (firstPlace : first.computed? = some place) (secondPlace : second.computed? = some place)
      (rest : Rewrites code result) : Rewrites (first :: code) (second :: result)
  | drop {code result : List Instruction} (temporary : Nat) (value : Operand)
      (rest : Rewrites code result) :
      Rewrites (.assign (.temporary temporary) value :: code) result

namespace Rewrites

variable {code result : List Instruction}

/-- Parts of the code are rewritten apart from each other. -/
theorem exists_of_append {first second : List Instruction}
    (rewrites : Rewrites (first ++ second) result) :
    ∃ firstResult secondResult, result = firstResult ++ secondResult ∧
      Rewrites first firstResult ∧ Rewrites second secondResult := by
  induction first generalizing result with
  | nil => exact ⟨[], result, rfl, .nil, rewrites⟩
  | cons instruction code ih =>
    cases rewrites with
    | keep _ rest =>
      obtain ⟨firstResult, secondResult, rfl, firstRewrites, secondRewrites⟩ := ih rest
      exact ⟨_ :: firstResult, secondResult, rfl, .keep _ firstRewrites, secondRewrites⟩
    | compute firstPlace secondPlace rest =>
      obtain ⟨firstResult, secondResult, rfl, firstRewrites, secondRewrites⟩ := ih rest
      exact ⟨_ :: firstResult, secondResult, rfl,
        .compute firstPlace secondPlace firstRewrites, secondRewrites⟩
    | drop temporary value rest =>
      obtain ⟨firstResult, secondResult, rfl, firstRewrites, secondRewrites⟩ := ih rest
      exact ⟨firstResult, secondResult, rfl, .drop temporary value firstRewrites,
        secondRewrites⟩

/-- Code that computes nothing stays. -/
theorem eq_of_forall_computed?_eq_none (rewrites : Rewrites code result)
    (others : ∀ instruction ∈ code, instruction.computed? = none) : result = code := by
  induction rewrites with
  | nil => rfl
  | keep instruction _ ih =>
    rw [ih fun other otherMem => others other (mem_cons_of_mem _ otherMem)]
  | @compute _ _ first _ _ firstPlace _ _ _ =>
    rw [others first mem_cons_self] at firstPlace
    cases firstPlace
  | drop =>
    cases others _ mem_cons_self

/-- Code that computes nothing stays around code that is rewritten. -/
theorem exists_of_enclosed {head tail : List Instruction}
    (rewrites : Rewrites (head ++ code ++ tail) result)
    (others : ∀ instruction ∈ head ++ tail, instruction.computed? = none := by
      simp [Instruction.computed?]) :
    ∃ rewritten, result = head ++ rewritten ++ tail ∧ Rewrites code rewritten := by
  obtain ⟨_, _, rfl, inner, tailRewrites⟩ := rewrites.exists_of_append
  obtain ⟨_, rewritten, rfl, headRewrites, codeRewrites⟩ := inner.exists_of_append
  refine ⟨rewritten, ?_, codeRewrites⟩
  rw [headRewrites.eq_of_forall_computed?_eq_none fun _ member =>
      others _ (mem_append_left _ member),
    tailRewrites.eq_of_forall_computed?_eq_none fun _ member =>
      others _ (mem_append_right _ member)]

/-- A view that shows of a computed value only its place, and of a temporary nothing, does
not tell the codes apart. -/
theorem filterMap_eq {α : Type} {view : Instruction → Option α} (rewrites : Rewrites code result)
    (ofPlace : Place → Option α) (computed : ∀ {instruction place},
      instruction.computed? = some place → view instruction = ofPlace place)
    (temporary : ∀ number, ofPlace (.temporary number) = none) :
    result.filterMap view = code.filterMap view := by
  induction rewrites with
  | nil => rfl
  | keep instruction _ ih => rw [filterMap_cons, filterMap_cons, ih]
  | compute firstPlace secondPlace _ ih =>
    rw [filterMap_cons, filterMap_cons, computed firstPlace, computed secondPlace, ih]
  | drop number value _ ih =>
    exact ih.trans (filterMap_cons_none ((computed rfl).trans (temporary number))).symm

/-- The same instructions that compute nothing stand in both codes. -/
theorem mem_iff (rewrites : Rewrites code result) {instruction : Instruction}
    (plain : instruction.computed? = none) : instruction ∈ result ↔ instruction ∈ code := by
  have same : result.filter (·.computed?.isNone) = code.filter (·.computed?.isNone) := by
    rw [← filterMap_eq_filter]
    exact rewrites.filterMap_eq (fun _ => none) (fun computed => by simp [computed]) fun _ => rfl
  simpa [plain] using congrArg (instruction ∈ ·) same

/-- The same labels are defined. -/
theorem definedLabels_eq (rewrites : Rewrites code result) :
    Code.definedLabels result = Code.definedLabels code := by
  refine rewrites.filterMap_eq (fun _ => none) (fun {instruction _} computed => ?_) fun _ => rfl
  cases instruction <;> first | rfl | cases computed

end Rewrites

/-! ## The passes -/

/-- The second instruction may stand in the place of the first: it is the
same, or it computes a value for the same place. -/
def Replaces (first second : Instruction) : Prop :=
  second = first ∨ ∃ place, first.computed? = some place ∧ second.computed? = some place

section

variable {code result : List Instruction} {first second : Instruction}
  (replaces : Replaces first second)

include replaces

theorem Rewrites.cons_of_replaces (rest : Rewrites code result) :
    Rewrites (first :: code) (second :: result) := by
  rcases replaces with rfl | ⟨place, firstPlace, secondPlace⟩
  · exact .keep second rest
  · exact .compute firstPlace secondPlace rest

/-- A view that shows of a computed value only its place does not tell the two apart. -/
theorem Replaces.view_eq {α : Type} {view : Instruction → α} (ofPlace : Place → α)
    (computed : ∀ {instruction place}, instruction.computed? = some place →
      view instruction = ofPlace place) : view second = view first := by
  rcases replaces with rfl | ⟨place, firstPlace, secondPlace⟩
  · rfl
  · rw [computed firstPlace, computed secondPlace]

end

/-- What folding makes of an instruction. -/
inductive Folds (constants : Constants) : Instruction → Instruction → Prop
  | evaluate {opcode : Opcode} {lhs rhs : Operand} {value : Number} (target : Nat)
      (known : foldedValue? opcode (constants.substitute lhs) (constants.substitute rhs) =
        some value) :
      Folds constants (.binary opcode target lhs rhs) (.assign (.temporary target) (.number value))
  | operate {opcode : Opcode} (target : Nat) (lhs rhs : Operand)
      (unknown : foldedValue? opcode (constants.substitute lhs) (constants.substitute rhs) =
        none) :
      Folds constants (.binary opcode target lhs rhs)
        (.binary opcode target (constants.substitute lhs) (constants.substitute rhs))
  | assign (target : Place) (value : Operand) :
      Folds constants (.assign target value) (.assign target (constants.substitute value))
  | keep {instruction : Instruction} (other : instruction.computed? = none) :
      Folds constants instruction instruction

theorem folds_foldStep (constants : Constants) (instruction : Instruction) :
    Folds constants instruction (foldStep constants instruction).1 := by
  cases instruction with
  | binary opcode target lhs rhs =>
    simp only [foldStep]
    split
    case h_1 known => exact .evaluate target known
    case h_2 unknown => exact .operate target lhs rhs unknown
  | assign target value =>
    simp only [foldStep]
    split <;> exact .assign _ value
  | _ => exact .keep rfl

theorem Folds.replaces {constants : Constants} {instruction folded : Instruction}
    (folds : Folds constants instruction folded) : Replaces instruction folded := by
  cases folds with
  | keep => exact .inl rfl
  | _ => exact .inr ⟨_, rfl, rfl⟩

theorem replaces_foldStep (constants : Constants) (instruction : Instruction) :
    Replaces instruction (foldStep constants instruction).1 :=
  (folds_foldStep constants instruction).replaces

theorem rewrites_foldFrom (constants : Constants) (code : List Instruction) :
    Rewrites code (foldFrom constants code) := by
  induction code generalizing constants with
  | nil => exact .nil
  | cons first rest ih => exact .cons_of_replaces (replaces_foldStep constants first) (ih _)

theorem replaces_reuseStep (available : Available) (instruction : Instruction) :
    Replaces instruction (reuseStep available instruction).1 := by
  cases instruction with
  | binary opcode target =>
    refine .inr ⟨.temporary target, rfl, ?_⟩
    simp only [reuseStep]
    split
    · split <;> rfl
    · rfl
  | _ => exact .inl rfl

theorem rewrites_reuseFrom (available : Available) (code : List Instruction) :
    Rewrites code (reuseFrom available code) := by
  induction code generalizing available with
  | nil => exact .nil
  | cons first rest ih => exact .cons_of_replaces (replaces_reuseStep available first) (ih _)

theorem replaces_shiftStep (instruction : Instruction) :
    Replaces instruction (shiftStep instruction) := by
  unfold shiftStep
  split
  · split
    · exact .inr ⟨_, rfl, rfl⟩
    · exact .inl rfl
  · exact .inl rfl

theorem rewrites_shiftPowers (code : List Instruction) : Rewrites code (shiftPowers code) := by
  induction code with
  | nil => exact .nil
  | cons first rest ih => exact .cons_of_replaces (replaces_shiftStep first) ih

/-- Only assignments to temporaries are dead. -/
theorem eq_assign_of_not_isLive {code : List Instruction} {instruction : Instruction}
    (dead : isLive code instruction = false) :
    ∃ temporary value, instruction = .assign (.temporary temporary) value := by
  unfold isLive at dead
  split at dead
  · exact ⟨_, _, rfl⟩
  · cases dead

theorem rewrites_filter_isLive (whole code : List Instruction) :
    Rewrites code (code.filter (isLive whole)) := by
  induction code with
  | nil => exact .nil
  | cons first rest ih =>
    cases live : isLive whole first with
    | true =>
      rw [filter_cons_of_pos live]
      exact .keep first ih
    | false =>
      obtain ⟨temporary, value, rfl⟩ := eq_assign_of_not_isLive live
      rw [filter_cons_of_neg (by simp [live])]
      exact .drop temporary value ih

theorem rewrites_run (pass : Pass) (code : List Instruction) : Rewrites code (pass.run code) := by
  cases pass with
  | constantFolding => exact rewrites_foldFrom [] code
  | deadCode => exact rewrites_filter_isLive code code
  | reuse => exact rewrites_reuseFrom [] code
  | strength => exact rewrites_shiftPowers code

/-- What every rewriting keeps, the optimizer keeps. -/
theorem runAll_of_rewrites {Kept : List Instruction → Prop}
    (step : ∀ code result, Rewrites code result → Kept code → Kept result)
    (passes : List Pass) {code : List Instruction} (kept : Kept code) :
    Kept (runAll passes code).1 := by
  induction passes generalizing code with
  | nil => exact kept
  | cons pass rest ih => exact ih (step code (pass.run code) (rewrites_run pass code) kept)

end Pass

end BanglaScript
