import BanglaScript.Proofs.Lowering.Scopes

/-!
# Running lowered expressions

The code of an expression runs straight through.  It leaves the value of the
expression in its operand, and it writes no variable and none of the
temporaries that had been handed out before.
-/

namespace BanglaScript

variable {Value : Type}

/-- Variables and the temporaries up to a number. -/
abbrev Place.isUpTo (limit : Nat) : Place → Bool := isVariableOr (· ≤ limit)

theorem Store.AgreesOn.upTo {low high : Nat} {first second : Store Value}
    (agrees : first.AgreesOn (Place.isUpTo high) second) (ordered : low ≤ high) :
    first.AgreesOn (Place.isUpTo low) second :=
  of_variables agrees.onVariables fun _ inside =>
    agrees (decide_eq_true (Nat.le_trans (of_decide_eq_true inside) ordered))

/-- Elsewhere in the code, with another store. -/
def Machine.State.moved (state : Machine.State Value) (distance : Nat) (store : Store Value) :
    Machine.State Value :=
  { state with position := state.position + distance, store := store }

theorem Machine.State.moved_moved (state : Machine.State Value) (first second : Nat)
    (firstStore secondStore : Store Value) :
    (state.moved first firstStore).moved second secondStore =
      state.moved (first + second) secondStore := by
  simp only [moved, Nat.add_assoc]

namespace Lower

open StateRun Machine Naming

variable {meaning : Meaning Value} {linkage : Linkage} {code : Code} {naming : Naming}
  {value : Value} {state : State Value}

/-- A closed expression has a value in the scopes that its names are bound
in. -/
theorem exists_value (meaning : Meaning Value) (expr : Expr) {naming : Naming} {names : List String}
    (ready : naming.Ready names) (closed : expr.isClosedIn names)
    (basic : expr.all Expr.isBasic) (store : Store Value) :
    ∃ value, expr.value? meaning (naming.view store) = some value := by
  cases expr with
  | literal => exact ⟨_, rfl⟩
  | identifier name =>
    simp only [Expr.value?]
    split
    · exact ⟨_, rfl⟩
    · split
      · exact ⟨_, rfl⟩
      · rename_i notTrue notFalse
        have declared : name ∈ names := by
          have cases := of_decide_eq_true closed
          simpa [notTrue, notFalse] using cases
        obtain ⟨_, bound⟩ := Option.isSome_iff_exists.mp (ready.bound name declared)
        exact ⟨_, by rw [find?_view, bound, Option.map_some]⟩
  | binary operator lhs rhs =>
    simp only [Expr.isClosedIn, Expr.all, Bool.and_eq_true] at closed basic
    obtain ⟨_, leftValue⟩ := exists_value meaning lhs ready closed.1.2 basic.1.2 store
    obtain ⟨_, rightValue⟩ := exists_value meaning rhs ready closed.2 basic.2 store
    exact ⟨_, by simp only [Expr.value?, leftValue, rightValue]; rfl⟩
  | call => simp [Expr.all, Expr.isBasic] at basic

/-- A name of the program is resolved to an operand with its value. -/
theorem ofName_resolve (separates : naming.Separates) {name : String} {store : Store Value}
    (evaluated : (Expr.identifier name).value? meaning (naming.view store) = some value) :
    meaning.ofName store (naming.resolve name) = value := by
  have free (truth : name = "true" ∨ name = "false") : naming.bound? name = none := by
    cases bound : naming.bound? name with
    | none => rfl
    | some =>
      have plain := separates.plain _ (exists_of_bound? bound)
      rcases truth with rfl | rfl
      · exact absurd rfl plain.notTrue
      · exact absurd rfl plain.notFalse
  simp only [Expr.value?] at evaluated
  split at evaluated
  · rename_i isTrue
    cases evaluated
    rw [Naming.resolve, free (.inl isTrue), isTrue]
    rfl
  · split at evaluated
    · rename_i isFalse
      cases evaluated
      rw [Naming.resolve, free (.inr isFalse), isFalse]
      rfl
    · rw [find?_view] at evaluated
      obtain ⟨_, bound, rfl⟩ := Option.map_eq_some_iff.mp evaluated
      have notTruth := separates.ne_truth (exists_of_bound? bound)
      rw [Naming.resolve, bound]
      simp only [Option.getD_some, Meaning.ofName, notTruth.1, notTruth.2, if_false]

theorem temporaries_le_expression (expr : Expr) (naming : Naming) :
    naming.temporaries ≤ ((expression expr).run naming).2.temporaries := by
  obtain ⟨_, naming_eq⟩ := run_expression_naming expr naming
  rw [naming_eq, withTemporaries_temporaries]
  exact Nat.le_add_right _ _

theorem run_binary (operator : BinaryOperator) (lhs rhs : Expr) (naming : Naming) :
    (expression (.binary operator lhs rhs)).run naming =
      let lhsRun := (expression lhs).run naming
      let rhsRun := (expression rhs).run lhsRun.2
      let target := rhsRun.2.temporaries + 1
      ((lhsRun.1.1 ++ rhsRun.1.1 ++
          [.binary (Opcode.ofOperator operator) target lhsRun.1.2 rhsRun.1.2], .temporary target),
        rhsRun.2.withTemporaries target) :=
  rfl

/-- The code of an expression computes its value. -/
theorem run_expression_code (expr : Expr) {naming : Naming} (separates : naming.Separates)
    {state : State Value} {value : Value}
    (holds : code.Holds state.position ((expression expr).run naming).1.1)
    (evaluated : expr.value? meaning (naming.view state.store) = some value) :
    ∃ store, run meaning linkage code ((expression expr).run naming).1.1.length state =
        some (state.moved ((expression expr).run naming).1.1.length store) ∧
      state.store.AgreesOn (Place.isUpTo naming.temporaries) store ∧
      meaning.ofOperand store ((expression expr).run naming).1.2 = value ∧
      ∀ place, ((expression expr).run naming).1.2.place? = some place →
        place.isUpTo ((expression expr).run naming).2.temporaries := by
  cases expr with
  | literal constant =>
    cases constant <;> cases evaluated <;>
      exact ⟨state.store, rfl, .refl _, rfl, by rintro _ ⟨⟩⟩
  | identifier =>
    exact ⟨state.store, rfl, .refl _, ofName_resolve separates evaluated, by rintro _ ⟨⟩; rfl⟩
  | binary operator lhs rhs =>
    simp only [Expr.value?, Option.bind_eq_bind, Option.bind_eq_some_iff] at evaluated
    obtain ⟨left, leftValue, _, rightValue, result⟩ := evaluated
    rw [run_binary] at holds ⊢
    dsimp only at holds ⊢
    simp only [Code.holds_append, Code.holds_singleton, List.length_append] at holds
    obtain ⟨⟨lhsHolds, rhsHolds⟩, here⟩ := holds
    obtain ⟨lhsStore, lhsReached, lhsAgrees, lhsResult, lhsInside⟩ :=
      run_expression_code lhs separates lhsHolds leftValue
    have lhsSame := sameScopes_expression lhs naming
    have lhsOrder := temporaries_le_expression lhs naming
    generalize (expression lhs).run naming = lhsRun at *
    have rhsView : lhsRun.2.view lhsStore = naming.view state.store := by
      rw [view, lhsSame.scopes]
      exact view_congr lhsAgrees.onVariables
    have rhsHolds : code.Holds (state.moved lhsRun.1.1.length lhsStore).position _ := rhsHolds
    obtain ⟨rhsStore, rhsReached, rhsAgrees, rhsResult, _⟩ :=
      run_expression_code rhs (separates.of_scopes lhsSame.scopes lhsSame.renames)
        rhsHolds (rhsView.symm ▸ rightValue)
    have rhsOrder := temporaries_le_expression rhs lhsRun.2
    generalize (expression rhs).run lhsRun.2 = rhsRun at *
    have agrees := lhsAgrees.trans (rhsAgrees.upTo lhsOrder)
    have lhsKept := meaning.ofOperand_congr fun place reads => rhsAgrees (lhsInside place reads)
    have later : Place.isUpTo naming.temporaries (.temporary (rhsRun.2.temporaries + 1)) = false :=
      decide_eq_false (Nat.not_le.mpr (Nat.lt_succ_of_le (Nat.le_trans lhsOrder rhsOrder)))
    refine ⟨_, ?_, (agrees.symm.set_left later value).symm, Store.set_self _ _ _, ?_⟩
    rotate_left
    · rintro _ ⟨⟩
      exact decide_eq_true (Nat.le_refl _)
    have both := run_trans lhsReached rhsReached
    rw [State.moved_moved] at both
    have lhsFinal : meaning.ofOperand rhsStore lhsRun.1.2 = left := lhsKept.trans lhsResult
    have last : step meaning linkage code
        (state.moved (lhsRun.1.1.length + rhsRun.1.1.length) rhsStore) =
        some (state.moved (lhsRun.1.1.length + rhsRun.1.1.length + 1)
          (rhsStore.set (.temporary (rhsRun.2.temporaries + 1)) value)) := by
      cases result
      rw [step_eq here, execute, meaning.operate_ofOperator, ← lhsFinal, ← rhsResult]
      rfl
    rw [List.length_append, List.length_append, List.length_singleton]
    exact run_trans both (run_one last)
  | call => cases evaluated

/-- The code of an assignment writes the variable.  Where there is none, the
variable holds its value already. -/
theorem run_assign_code {target : String} {operand : Operand}
    (holds : code.Holds state.position (assign (.variable target) operand))
    (notTruth : target ≠ "true" ∧ target ≠ "false") :
    run meaning linkage code (assign (.variable target) operand).length state =
      some (state.moved (assign (.variable target) operand).length
        (state.store.set (.variable target) (meaning.ofOperand state.store operand))) := by
  unfold assign at holds ⊢
  split
  · rename_i itself
    have same : operand = .variable target := by
      cases operand <;> simp_all [Operand.readsPlace, Operand.place?]
    have unchanged : state.store.set (.variable target) (meaning.ofOperand state.store operand) =
        state.store := by
      rw [same]
      simp only [Meaning.ofOperand, Meaning.ofName, notTruth.1, notTruth.2, if_false]
      exact state.store.set_eq_self _
    rw [unchanged]
    rfl
  · rename_i other
    rw [if_neg other, Code.holds_singleton] at holds
    exact run_one (step_eq holds)

/-! ## Conditions -/

/-- The machine gets to a position, in at least one step, and has printed
nothing and written no variable on the way. -/
def Arrives (meaning : Meaning Value) (linkage : Linkage) (code : Code) (state : State Value)
    (position : Nat) : Prop :=
  ∃ count target, run meaning linkage code (count + 1) state = some target ∧
    target.position = position ∧ target.output = state.output ∧
    ∀ name, target.store (.variable name) = state.store (.variable name)

/-- A test goes behind the label that its condition selects. -/
theorem arrives_of_test (expr : Expr) (separates : naming.Separates)
    (distinct : code.LabelsDistinct) {whenTrue whenFalse position : Nat}
    (holds : code.Holds state.position (((expression expr).run naming).1.1 ++
      [.branch ((expression expr).run naming).1.2 whenTrue whenFalse]))
    (evaluated : expr.value? meaning (naming.view state.store) = some value)
    (found : code[position]? =
      some (.label (if meaning.isTrue value then whenTrue else whenFalse))) :
    Arrives meaning linkage code state (position + 1) := by
  rw [Code.holds_append, Code.holds_singleton] at holds
  obtain ⟨store, reached, agrees, result, _⟩ :=
    run_expression_code expr separates holds.1 evaluated
  have tested : step meaning linkage code
      (state.moved ((expression expr).run naming).1.1.length store) =
      some ((state.moved ((expression expr).run naming).1.1.length store).goTo position) := by
    rw [step_eq holds.2, execute]
    simp only [State.moved, result, Code.labelPosition?_eq_some distinct found]
    rfl
  have passed : step meaning linkage code
      ((state.moved ((expression expr).run naming).1.1.length store).goTo position) = _ :=
    step_eq found
  exact ⟨_, _, run_trans (run_trans reached (run_one tested)) (run_one passed), rfl, rfl,
    agrees.onVariables⟩

end Lower

end BanglaScript
