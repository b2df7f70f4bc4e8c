import BanglaScript.Proofs.Lowering.Expressions
import BanglaScript.Proofs.Structure.Labels

/-!
# Running lowered statements

A run of statements on their tree is followed by a run of their code, from the
first instruction to the position behind the last one.  The scopes of the tree
can be read off the store at either end, and both runs print the same.
-/

namespace BanglaScript

open Code List

namespace Lower

open StateRun Machine Naming Statement

variable {Value : Type} {meaning : Meaning Value} {linkage : Linkage} {code : Code} {label : Nat}

/-- The machine gets to a position, has printed the output on the way, and the
scopes can be read off its store there. -/
def Completes (meaning : Meaning Value) (linkage : Linkage) (code : Code) (state : State Value)
    (finish : Nat) (naming : Naming) (output : List Value) (final : Scopes Value) : Prop :=
  ∃ count target, run meaning linkage code count state = some target ∧
    target.position = finish ∧ target.output = state.output ++ output ∧
    naming.view target.store = final

namespace Completes

variable {state : State Value} {middle finish : Nat} {naming later : Naming}
  {output more : List Value} {scopes final : Scopes Value}

/-- What is reached from the end of a part is reached from its beginning. -/
theorem andThen (first : Completes meaning linkage code state middle naming output scopes)
    (next : ∀ between : State Value, between.position = middle →
      naming.view between.store = scopes →
      Completes meaning linkage code between finish later more final) :
    Completes meaning linkage code state finish later (output ++ more) final := by
  obtain ⟨firstCount, between, firstReached, position, firstOutput, firstScopes⟩ := first
  obtain ⟨nextCount, target, nextReached, finished, nextOutput, nextScopes⟩ :=
    next between position firstScopes
  refine ⟨firstCount + nextCount, target, run_trans firstReached nextReached, finished, ?_,
    nextScopes⟩
  rw [nextOutput, firstOutput, append_assoc]

theorem of_scopes (completes : Completes meaning linkage code state finish naming output final)
    (same : later.scopes = naming.scopes) :
    Completes meaning linkage code state finish later output final := by
  obtain ⟨count, target, reached, position, printed, finalScopes⟩ := completes
  refine ⟨count, target, reached, position, printed, ?_⟩
  rw [view, same]
  exact finalScopes

theorem endingAt (completes : Completes meaning linkage code state middle naming output final)
    (same : middle = finish) :
    Completes meaning linkage code state finish naming output final :=
  same ▸ completes

variable (completes : Completes meaning linkage code state finish naming output final)

include completes

theorem closeScope :
    Completes meaning linkage code state finish naming.closeScope output final.tail := by
  obtain ⟨count, target, reached, position, printed, rfl⟩ := completes
  exact ⟨count, target, reached, position, printed, map_tail⟩

/-- A label is passed. -/
theorem passLabel (found : code[finish]? = some (.label label)) :
    Completes meaning linkage code state (finish + 1) naming output final := by
  obtain ⟨count, target, reached, rfl, printed, finalScopes⟩ := completes
  exact ⟨count + 1, target.next, run_trans reached (run_one (step_eq found)), rfl, printed,
    finalScopes⟩

/-- A jump is followed, up to the position of its label. -/
theorem jump
    (distinct : code.LabelsDistinct) {position : Nat} (found : code[finish]? = some (.jump label))
    (target : code[position]? = some (.label label)) :
    Completes meaning linkage code state position naming output final := by
  obtain ⟨count, last, reached, rfl, printed, finalScopes⟩ := completes
  have jumped : step meaning linkage code last = some (last.goTo position) := by
    rw [step_eq found, execute, labelPosition?_eq_some distinct target]
    rfl
  exact ⟨count + 1, last.goTo position, run_trans reached (run_one jumped), rfl, printed,
    finalScopes⟩

end Completes

theorem Arrives.andThen {state : State Value} {position finish : Nat} {naming : Naming}
    {output : List Value} {final : Scopes Value}
    (arrives : Arrives meaning linkage code state position)
    (next : ∀ between : State Value, between.position = position →
      (∀ naming : Naming, naming.view between.store = naming.view state.store) →
      Completes meaning linkage code between finish naming output final) :
    Completes meaning linkage code state finish naming output final := by
  obtain ⟨count, between, reached, rfl, printed, same⟩ := arrives
  obtain ⟨nextCount, target, nextReached, finished, nextOutput, nextScopes⟩ :=
    next between rfl fun naming => view_congr same
  refine ⟨count + 1 + nextCount, target, run_trans reached nextReached, finished, ?_, nextScopes⟩
  rw [nextOutput, printed]

/-- A label may stand before. -/
theorem Arrives.afterLabel {state : State Value} {position : Nat}
    (found : code[state.position]? = some (.label label))
    (arrives : Arrives meaning linkage code state.next position) :
    Arrives meaning linkage code state position := by
  obtain ⟨count, target, reached, rest⟩ := arrives
  exact ⟨count + 1, target, (run_succ (step_eq found)).trans reached, rest⟩

/-- Arriving is completing nothing. -/
theorem Arrives.completes {state : State Value} {position : Nat}
    (arrives : Arrives meaning linkage code state position) (naming : Naming) :
    Completes meaning linkage code state position naming [] (naming.view state.store) :=
  arrives.andThen fun between position same =>
    ⟨0, between, rfl, position, (append_nil _).symm, same naming⟩

/-! ## Single statements -/

/-- The machine runs through the code of a statement. -/
def Follows (meaning : Meaning Value) (linkage : Linkage) (code : Code) (state : State Value)
    (phrase : Statement) (naming : Naming) (output : List Value) (final : Scopes Value) : Prop :=
  Completes meaning linkage code state
    (state.position + ((statement phrase).run naming).1.length)
    ((statement phrase).run naming).2 output final

section Straight

variable {naming : Naming} {state : State Value} {value : Value} {expr : Expr}
  {target name : String}

/-- The scopes can still be read off the store after an expression. -/
theorem view_expression {store : Store Value} {limit : Nat}
    (agrees : state.store.AgreesOn (Place.isUpTo limit) store) :
    ((expression expr).run naming).2.view store = naming.view state.store := by
  rw [view, (sameScopes_expression expr naming).scopes]
  exact view_congr agrees.onVariables

variable (separates : naming.Separates)
  (evaluated : expr.value? meaning (naming.view state.store) = some value)

include separates evaluated

theorem follows_expression
    (holds : code.Holds state.position ((statement (.expression expr)).run naming).1) :
    Follows meaning linkage code state (.expression expr) naming [] (naming.view state.store) := by
  obtain ⟨_, reached, agrees, _⟩ := run_expression_code expr separates holds evaluated
  exact ⟨_, _, reached, rfl, (append_nil _).symm, view_expression agrees⟩

theorem follows_print (holds : code.Holds state.position ((statement (.print expr)).run naming).1) :
    Follows meaning linkage code state (.print expr) naming [value] (naming.view state.store) := by
  have holds : code.Holds state.position (((expression expr).run naming).1.1 ++
    [.print ((expression expr).run naming).1.2]) := holds
  rw [holds_append, holds_singleton] at holds
  obtain ⟨store, reached, agrees, result, _⟩ :=
    run_expression_code expr separates holds.1 evaluated
  have printed : step meaning linkage code
      (state.moved ((expression expr).run naming).1.1.length store) = _ := step_eq holds.2
  refine ⟨_, _, run_trans reached (run_one printed), ?_, ?_, view_expression agrees⟩
  · have length : ((statement (.print expr)).run naming).1.length =
        ((expression expr).run naming).1.1.length + 1 := length_append
    rw [length]
    rfl
  · rw [← result]
    rfl

/-- The value of an expression is written to a variable. -/
theorem completes_assign (holds : code.Holds state.position (((expression expr).run naming).1.1 ++
      assign (.variable target) ((expression expr).run naming).1.2))
    (notTruth : target ≠ "true" ∧ target ≠ "false") (later : Naming) :
    Completes meaning linkage code state
      (state.position + (((expression expr).run naming).1.1 ++
        assign (.variable target) ((expression expr).run naming).1.2).length)
      later [] (later.view (state.store.set (.variable target) value)) := by
  rw [holds_append] at holds
  obtain ⟨store, reached, agrees, result, _⟩ :=
    run_expression_code expr separates holds.1 evaluated
  have assignHolds : code.Holds
      (state.moved ((expression expr).run naming).1.1.length store).position _ := holds.2
  have assigned : run meaning linkage code _ _ = _ := run_assign_code assignHolds notTruth
  refine ⟨_, _, run_trans reached assigned, ?_, (append_nil _).symm, view_congr fun name => ?_⟩
  · simp only [State.moved, length_append, Nat.add_assoc]
  · simp only [State.moved, Store.set, result, agrees.onVariables]

theorem follows_declaration (plain : IsPlain name)
    (holds : code.Holds state.position ((statement (.declaration name (some expr))).run naming).1) :
    Follows meaning linkage code state (.declaration name (some expr)) naming []
      ((naming.view state.store).bind name value) := by
  have same := sameScopes_expression expr naming
  have later := separates.of_scopes same.scopes same.renames
  have bound := later.bind_view plain state.store value
  rw [view, same.scopes, ← view] at bound
  obtain ⟨_, _, _, after⟩ := later.declare_scopes name
  have member : (name, (((expression expr).run naming).2.declare name).1) ∈
      (((expression expr).run naming).2.declare name).2.entries := by
    rw [entries, after]
    exact mem_cons_self
  rw [bound]
  exact completes_assign separates evaluated holds ((later.declare plain).ne_truth member) _

theorem follows_assignment (bound : naming.bound? name = some target)
    (holds : code.Holds state.position ((statement (.assignment name expr)).run naming).1)
    {changed : Scopes Value}
    (assigned : (naming.view state.store).assign? name value = some changed) :
    Follows meaning linkage code state (.assignment name expr) naming [] changed := by
  have same := sameScopes_expression expr naming
  have shape : (statement (.assignment name expr)).run naming =
      (((expression expr).run naming).1.1 ++
        assign (.variable target) ((expression expr).run naming).1.2,
        ((expression expr).run naming).2) := by
    have resolved : ((expression expr).run naming).2.resolve name = target := by
      rw [Naming.resolve, bound?, same.scopes, ← bound?, bound, Option.getD_some]
    rw [← resolved]
    rfl
  rw [view, assign?_map_viewScope separates.distinct bound, Option.some.injEq] at assigned
  rw [shape] at holds
  rw [Follows, shape, ← assigned]
  exact (completes_assign separates evaluated holds
    (separates.ne_truth (exists_of_bound? bound)) naming).of_scopes same.scopes

end Straight

/-! ## Layouts -/

/-- Where the parts of a test and of what comes behind it stand. -/
theorem holds_test {position whenTrue whenFalse : Nat} {test body rest : List Instruction}
    {operand : Operand} (holds : code.Holds position
      (test ++ [.branch operand whenTrue whenFalse, .label whenTrue] ++ body ++ rest)) :
    code.Holds position (test ++ [.branch operand whenTrue whenFalse]) ∧
      code[position + test.length + 1]? = some (.label whenTrue) ∧
      code.Holds (position + test.length + 2) body ∧
      code.Holds (position + test.length + 2 + body.length) rest ∧
      position + test.length + 2 + body.length + rest.length =
        position + (test ++ [Instruction.branch operand whenTrue whenFalse, .label whenTrue] ++
          body ++ rest).length := by
  simp only [holds_append, holds_cons, holds_nil, length_append,
    length_cons, length_nil, Nat.zero_add, and_true, ← Nat.add_assoc] at holds ⊢
  exact ⟨⟨holds.1.1.1, holds.1.1.2.1⟩, holds.1.1.2.2, holds.1.2, holds.2⟩

/-! ## Statements with bodies -/

/-- The machine gets to the code of a body, and from the end of this code it
goes on to a finish. -/
def Enters (meaning : Meaning Value) (linkage : Linkage) (code : Code) (state : State Value)
    (naming : Naming) (body : List Statement) (finish : Nat) (later : Naming) : Prop :=
  ∃ start entered, Arrives meaning linkage code state start ∧ SameScopes naming entered ∧
    code.Holds start ((statements body).run entered.openScope).1 ∧
    ∀ (source : State Value) (output : List Value) (final : Scopes Value),
      Completes meaning linkage code source
          (start + ((statements body).run entered.openScope).1.length)
          ((inScope (statements body)).run entered).2 output final →
        Completes meaning linkage code source finish later output final

section Compound

variable {naming : Naming} {names : List String} {state : State Value} {value : Value}
  {condition : Expr} {body alternative : List Statement}

variable (ready : naming.Ready names) (distinct : code.LabelsDistinct)
  (evaluated : condition.value? meaning (naming.view state.store) = some value)

include ready distinct evaluated

theorem tests_ifThen
    (holds : code.Holds state.position ((statement (.ifThen condition body)).run naming).1) :
    (meaning.isTrue value = true → Enters meaning linkage code state naming body
      (state.position + ((statement (.ifThen condition body)).run naming).1.length)
      ((statement (.ifThen condition body)).run naming).2) ∧
    (meaning.isTrue value = false → Follows meaning linkage code state (.ifThen condition body)
      naming [] (naming.view state.store)) := by
  obtain ⟨testHolds, bodyLabel, bodyHolds, endLabel, ends⟩ := holds_test holds
  rw [holds_singleton] at endLabel
  have arrives {position : Nat} (found : code[position]? = _) :
      Arrives meaning linkage code state (position + 1) :=
    arrives_of_test condition ready.separates distinct testHolds evaluated found
  have entered := (sameScopes_expression condition naming).trans
    ((sameScopes_label _).trans (sameScopes_label _))
  have same := sameScopes_statement (.ifThen condition body) naming rfl
  constructor
  · intro test
    exact ⟨_, _, arrives (by rw [test]; exact bodyLabel), entered, bodyHolds,
      fun source output final completes => (completes.passLabel endLabel).endingAt ends⟩
  · intro test
    have arrives := arrives (by rw [test]; exact endLabel)
    exact ((arrives.completes naming).of_scopes same.scopes).endingAt ends

theorem enters_ifElse
    (holds : code.Holds state.position
      ((statement (.ifElse condition body alternative)).run naming).1) :
    Enters meaning linkage code state naming (if meaning.isTrue value then body else alternative)
      (state.position + ((statement (.ifElse condition body alternative)).run naming).1.length)
      ((statement (.ifElse condition body alternative)).run naming).2 := by
  obtain ⟨holds, endLabel⟩ := (holds_append ..).mp holds
  obtain ⟨holds, elseHolds⟩ := (holds_append ..).mp holds
  obtain ⟨testHolds, bodyLabel, bodyHolds, rest, ends⟩ := holds_test holds
  rw [holds_cons, holds_singleton] at rest
  obtain ⟨jump, elseLabel⟩ := rest
  rw [← ends] at elseHolds
  rw [holds_singleton, length_append, ← Nat.add_assoc, ← ends] at endLabel
  have ended (first second : List Instruction) (last : Instruction) :
      state.position + first.length + second.length + 1 =
        state.position + (first ++ second ++ [last]).length := by
    simp +arith
  have arrives {position : Nat} (found : code[position]? = _) :
      Arrives meaning linkage code state (position + 1) :=
    arrives_of_test condition ready.separates distinct testHolds evaluated found
  have entered := (sameScopes_expression condition naming).trans
    ((sameScopes_label _).trans ((sameScopes_label _).trans (sameScopes_label _)))
  have whole := sameScopes_statement (.ifElse condition body alternative) naming rfl
  have between := entered.trans (sameScopes_inScope (grows_statements body _))
  cases test : meaning.isTrue value with
  | true =>
    refine ⟨_, _, arrives (by rw [test]; exact bodyLabel), entered, bodyHolds, ?_⟩
    intro source output final completes
    have finished := (completes.jump distinct jump endLabel).passLabel endLabel
    exact (finished.of_scopes (whole.scopes.trans between.scopes.symm)).endingAt
      (ends ▸ ended ..)
  | false =>
    refine ⟨_, _, arrives (by rw [test]; exact elseLabel), between, elseHolds, ?_⟩
    intro source output final completes
    exact (completes.passLabel endLabel).endingAt (ends ▸ ended ..)

/-- One turn of a loop leads back to its beginning. -/
theorem tests_repeatWhile
    (holds : code.Holds state.position ((statement (.repeatWhile condition body)).run naming).1) :
    (meaning.isTrue value = true →
      Enters meaning linkage code state naming body state.position naming) ∧
    (meaning.isTrue value = false → Follows meaning linkage code state
      (.repeatWhile condition body) naming [] (naming.view state.store)) := by
  obtain ⟨startLabel, holds⟩ := (holds_cons ..).mp holds
  obtain ⟨testHolds, bodyLabel, bodyHolds, rest, ends⟩ := holds_test holds
  rw [holds_cons, holds_singleton] at rest
  obtain ⟨jump, endLabel⟩ := rest
  have labelled := (sameScopes_label naming).trans ((sameScopes_label _).trans (sameScopes_label _))
  have arrives {position : Nat} (found : code[position]? = _) :
      Arrives meaning linkage code state.next (position + 1) :=
    arrives_of_test condition (ready.separates.of_scopes labelled.scopes labelled.renames) distinct
      testHolds evaluated found
  have entered := labelled.trans (sameScopes_expression condition _)
  have same := sameScopes_statement (.repeatWhile condition body) naming rfl
  constructor
  · intro test
    have arrives := arrives (by rw [test]; exact bodyLabel)
    exact ⟨_, _, arrives.afterLabel startLabel, entered, bodyHolds, fun source output final
      completes => (completes.jump distinct jump startLabel).of_scopes same.scopes.symm⟩
  · intro test
    have arrives := (arrives (by rw [test]; exact endLabel)).afterLabel startLabel
    exact ((arrives.completes naming).of_scopes same.scopes).endingAt
      (ends.trans (Nat.add_right_comm ..))

end Compound

end Lower

end BanglaScript
