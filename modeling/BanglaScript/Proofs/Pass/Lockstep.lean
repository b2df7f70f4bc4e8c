import BanglaScript.Proofs.Pass.Rewriting
import BanglaScript.Proofs.Trace

/-!
# Runs of rewritten code

A pass that drops nothing leaves every instruction at its position.  Labels,
functions and calls then stand where they stood, so a run of the rewritten code
can differ from the run of the source only where a computation gives another
value.  If it gives the same value in every state that the source reaches, the
two runs are the same, state by state.
-/

namespace BanglaScript

open Machine

variable {instruction : Instruction}

/-- The value that an assignment or an operation computes. -/
def Meaning.ofComputation? {Value : Type} (meaning : Meaning Value) (store : Store Value) :
    Instruction → Option Value
  | .assign _ value => some (meaning.ofOperand store value)
  | .binary opcode _ lhs rhs =>
    some (meaning.operate opcode (meaning.ofOperand store lhs) (meaning.ofOperand store rhs))
  | _ => none

namespace Pass

/-- The rewritten code has an instruction for every one of the source that may
stand in its place. -/
structure StandsFor (rewritten source : Code) : Prop where
  size_eq : rewritten.size = source.size
  replaces : ∀ ⦃position : Nat⦄ ⦃first second : Instruction⦄,
    source[position]? = some first → rewritten[position]? = some second → Replaces first second

namespace StandsFor

/-- Code in which every instruction is replaced in its place. -/
theorem of_stepwise {code result : List Instruction} {step : Nat → Instruction → Instruction}
    (stepwise : ∀ position, result[position]? = code[position]?.map (step position))
    (replaces : ∀ position instruction, Replaces instruction (step position instruction)) :
    StandsFor result.toArray code.toArray where
  size_eq := by
    have mapped : result = code.mapIdx step :=
      List.ext_getElem? fun position => (stepwise position).trans List.getElem?_mapIdx.symm
    rw [List.size_toArray, List.size_toArray, mapped, List.length_mapIdx]
  replaces := by
    intro position first second sourceFound rewrittenFound
    rw [List.getElem?_toArray] at sourceFound rewrittenFound
    rw [stepwise, sourceFound] at rewrittenFound
    cases rewrittenFound
    exact replaces position first

variable {rewritten source : Code} (stands : StandsFor rewritten source)

include stands

/-- At every position the two codes have the same instruction, or both compute
a value there, or both have ended. -/
theorem eq_or_computed (position : Nat) :
    rewritten[position]? = source[position]? ∨
      ∃ place first second, source[position]? = some first ∧ rewritten[position]? = some second ∧
        first.computed? = some place ∧ second.computed? = some place := by
  cases sourceFound : source[position]? with
  | none =>
    have outside := Array.getElem?_eq_none_iff.mp sourceFound
    exact .inl (Array.getElem?_eq_none (stands.size_eq ▸ outside))
  | some first =>
    have inside := (Array.getElem?_eq_some_iff.mp sourceFound).1
    obtain ⟨second, rewrittenFound⟩ : ∃ second, rewritten[position]? = some second :=
      ⟨_, Array.getElem?_eq_getElem (stands.size_eq ▸ inside)⟩
    rcases stands.replaces sourceFound rewrittenFound with rfl | ⟨place, firstPlace, secondPlace⟩
    · exact .inl rewrittenFound
    · exact .inr ⟨place, first, second, rfl, rewrittenFound, firstPlace, secondPlace⟩

/-- An instruction that computes nothing stands at the same positions in both
codes. -/
theorem getElem?_eq_some_iff (other : instruction.computed? = none) (position : Nat) :
    rewritten[position]? = some instruction ↔ source[position]? = some instruction := by
  rcases stands.eq_or_computed position with
    same | ⟨place, first, second, sourceFound, rewrittenFound, firstPlace, secondPlace⟩
  · rw [same]
  · have different {found : Instruction} (computed : found.computed? = some place) :
        found ≠ instruction := by
      rintro rfl
      rw [other] at computed
      cases computed
    simp [sourceFound, rewrittenFound, different firstPlace, different secondPlace]

theorem labelPosition?_eq (label : Nat) :
    rewritten.labelPosition? label = source.labelPosition? label := by
  have same (position : Nat) : rewritten[position]? = some (.label label) ↔
      source[position]? = some (.label label) :=
    stands.getElem?_eq_some_iff rfl position
  simp only [Code.labelPosition?, stands.size_eq, same]

/-- The same functions end at the same positions. -/
theorem functionEnd?_eq (name : String) (depth start count : Nat) :
    rewritten.functionEnd? name depth start count = source.functionEnd? name depth start count := by
  induction count generalizing depth start with
  | zero => rfl
  | succ count ih =>
    rcases stands.eq_or_computed start with
      same | ⟨place, first, second, sourceFound, rewrittenFound, firstPlace, secondPlace⟩
    · simp only [Code.functionEnd?, same, ih]
    · have passed {code : Code} {found : Instruction} (at_start : code[start]? = some found)
          (computed : found.computed? = some place) :
          code.functionEnd? name depth start (count + 1) =
            code.functionEnd? name depth (start + 1) count := by
        cases found <;> simp_all [Code.functionEnd?, Instruction.computed?]
      rw [passed sourceFound firstPlace, passed rewrittenFound secondPlace, ih]

end StandsFor

/-- Calls enter functions at the head of their bodies. -/
def EntersFunctions (linkage : Linkage) (code : List Instruction) : Prop :=
  ∀ ⦃position : Nat⦄ ⦃name : String⦄ ⦃callee : Callee⦄, linkage position name = some callee →
    ∃ start function parameters, callee.entry = start + 1 ∧
      code[start]? = some (.functionStart function parameters)

end Pass

/-! ## Steps and runs -/

namespace Machine

open Pass

variable {Value : Type} {meaning : Meaning Value} {linkage : Linkage} {rewritten source : Code}
  {state start : State Value}

/-- A computation writes its value and goes on. -/
theorem execute_eq_write {code : Code} {place : Place} {value : Value}
    (computed : instruction.computed? = some place)
    (computes : meaning.ofComputation? state.store instruction = some value) :
    execute meaning linkage code state instruction = some (state.write place value) := by
  cases instruction <;> cases computed <;> cases computes <;> rfl

/-- What computes nothing does the same in both codes. -/
theorem execute_eq_of_standsFor (stands : StandsFor rewritten source) (state : State Value)
    (instruction : Instruction) :
    execute meaning linkage rewritten state instruction =
      execute meaning linkage source state instruction := by
  cases instruction with
  | branch | jump => simp only [execute, stands.labelPosition?_eq]
  | functionStart => simp only [execute, stands.functionEnd?_eq, stands.size_eq]
  | giveBack value => cases value <;> rfl
  | _ => rfl

/-- Where both instructions stand, they compute the same value. -/
def ComputesAlike (meaning : Meaning Value) (rewritten source : Code) (state : State Value) :
    Prop :=
  ∀ ⦃first second : Instruction⦄, source[state.position]? = some first →
    rewritten[state.position]? = some second →
    meaning.ofComputation? state.store second = meaning.ofComputation? state.store first

/-- Instructions that compute the same value do the same. -/
theorem step_eq_of_computesAlike (stands : StandsFor rewritten source)
    (alike : ComputesAlike meaning rewritten source state) :
    step meaning linkage rewritten state = step meaning linkage source state := by
  rcases stands.eq_or_computed state.position with
    same | ⟨place, first, second, sourceFound, rewrittenFound, firstPlace, secondPlace⟩
  · rw [step, step, same]
    exact congrArg _ (funext (execute_eq_of_standsFor stands state))
  · obtain ⟨value, computes⟩ : ∃ value, meaning.ofComputation? state.store first = some value := by
      cases first <;> first | exact ⟨_, rfl⟩ | cases firstPlace
    rw [step_eq sourceFound, step_eq rewrittenFound, execute_eq_write firstPlace computes,
      execute_eq_write secondPlace ((alike sourceFound rewrittenFound).trans computes)]

/-- What is seen of a step is the same in both codes. -/
theorem seen_eq_of_standsFor (meaning : Meaning Value) (stands : StandsFor rewritten source)
    (state : State Value) : seen meaning rewritten state = seen meaning source state := by
  rcases stands.eq_or_computed state.position with
    same | ⟨place, first, second, sourceFound, rewrittenFound, firstPlace, secondPlace⟩
  · rw [seen, seen, same]
  · have unseen {instruction : Instruction} (computed : instruction.computed? = some place) :
        event? meaning state instruction = none := by
      cases instruction <;> first | rfl | cases computed
    rw [seen, seen, sourceFound, rewrittenFound, Option.bind_some, Option.bind_some,
      unseen firstPlace, unseen secondPlace]

/-- Codes that compute the same values in every state that the source reaches
have the same runs and the same traces. -/
theorem run_and_trace_eq_of_computesAlike (stands : StandsFor rewritten source)
    (alike : ∀ ⦃count state⦄, run meaning linkage source count start = some state →
      ComputesAlike meaning rewritten source state) (count : Nat) :
    run meaning linkage rewritten count start = run meaning linkage source count start ∧
      trace meaning linkage rewritten count start = trace meaning linkage source count start := by
  induction count generalizing start with
  | zero => exact ⟨rfl, rfl⟩
  | succ count ih =>
    have sameStep : step meaning linkage rewritten start = step meaning linkage source start :=
      step_eq_of_computesAlike stands (alike (run_zero start))
    rw [run, run, trace, trace, sameStep, seen_eq_of_standsFor meaning stands]
    cases first : step meaning linkage source start with
    | none => exact ⟨rfl, rfl⟩
    | some =>
      obtain ⟨sameRun, sameTrace⟩ :=
        ih fun rest state reached => alike ((run_succ first).trans reached)
      exact ⟨sameRun, congrArg _ sameTrace⟩

/-- Codes that compute the same values print the same. -/
theorem prints_iff_of_computesAlike (stands : StandsFor rewritten source)
    (alike : ∀ ⦃count state⦄, run meaning linkage source count (State.start meaning) = some state →
      ComputesAlike meaning rewritten source state) (output : List Value) :
    Prints meaning linkage rewritten output ↔ Prints meaning linkage source output := by
  simp only [Prints, (run_and_trace_eq_of_computesAlike stands alike _).1, stands.size_eq]

end Machine

end BanglaScript
