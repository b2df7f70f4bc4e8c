import BanglaScript.Proofs.Call.Straight
import BanglaScript.Proofs.Lowering.Expressions
import BanglaScript.Proofs.Parser.Words
import BanglaScript.Proofs.Script.Values

/-!
# When lowered code reads its operands

The code of an expression computes the operands from left to right, but the
operand of a variable is the variable itself.  It is read by the instruction that
takes it, behind the code of the operands to its right.  Where no call in that code
can change it, this is what it held when it was reached.
-/

namespace BanglaScript

open Machine List Code

variable {Value : Type}

/-! ## Expressions -/

namespace Lower

theorem resolve_expression (expr : Expr) (naming : Naming) :
    ((expression expr).run naming).2.resolve = naming.resolve := by
  obtain ⟨_, changed⟩ := run_expression_naming expr naming
  rw [changed]
  rfl

theorem run_call (name : String) (arguments : List Expr) (naming : Naming) :
    (expression (.call name arguments)).run naming =
      let given := (expressions arguments).run naming
      let target := given.2.temporaries + 1
      ((given.1.1 ++ given.1.2.map Instruction.push ++ [.call name given.1.2.length, .pop target],
        .temporary target), given.2.withTemporaries target) :=
  rfl

theorem run_cons (first : Expr) (rest : List Expr) (naming : Naming) :
    (expressions (first :: rest)).run naming =
      let firstRun := (expression first).run naming
      let restRun := (expressions rest).run firstRun.2
      ((firstRun.1.1 ++ restRun.1.1, firstRun.1.2 :: restRun.1.2), restRun.2) :=
  rfl

section Run

variable {meaning : Meaning Value} {linkage : Linkage} {code : List Instruction}
  {reaches : String → Option Callee}

/-- In a part of the code all calls of a name reach the same function. -/
def ReachesIn (linkage : Linkage) (reaches : String → Option Callee) (position length : Nat) :
    Prop :=
  ∀ ⦃place : Nat⦄, position ≤ place → place < position + length → linkage place = reaches

section

variable {position first second : Nat}
  (reached : ReachesIn linkage reaches position (first + second))

include reached

theorem ReachesIn.left : ReachesIn linkage reaches position first :=
  fun _ lower upper => reached lower (by omega)

theorem ReachesIn.right : ReachesIn linkage reaches (position + first) second :=
  fun _ lower upper => reached (by omega) (by omega)

end

/-- From the state on, what is evaluated is computed, and only this is. -/
structure Realizes (meaning : Meaning Value) (linkage : Linkage) (code : Code)
    (evaluates : Variables Value → List (Held Value) → List Value → Variables Value → Prop)
    (state : State Value) (length before behind : Nat) (operands : List Operand) : Prop where
  yields : ∀ {held printed after}, evaluates state.store.named held printed after →
    ∃ final, Yields meaning linkage code length before behind state operands held printed final ∧
      final.store.named = after
  evaluated : ∀ {final}, Passes meaning linkage code length state final →
    ∃ held printed after, evaluates state.store.named held printed after

/-- Where the machine gets, evaluation gets. -/
theorem Realizes.of_passes {code : Code}
    {evaluates : Variables Value → List (Held Value) → List Value → Variables Value → Prop}
    {state final : State Value} {length before behind : Nat} {operands : List Operand}
    (realizes : Realizes meaning linkage code evaluates state length before behind operands)
    (passes : Passes meaning linkage code length state final) :
    ∃ held printed, evaluates state.store.named held printed final.store.named ∧
      Yields meaning linkage code length before behind state operands held printed final := by
  obtain ⟨held, printed, _, evaluated⟩ := realizes.evaluated passes
  obtain ⟨_, yields, rfl⟩ := realizes.yields evaluated
  cases yields.passes.unique passes
  exact ⟨held, printed, evaluated, yields⟩

mutual

/-- The code of an expression computes its value, where variables are read when they
are taken. -/
theorem realizes_expression (contained : Code.IsSelfContained code)
    (links : LinksFunctions linkage code) (expr : Expr) (naming : Naming) {state : State Value}
    (holds : Code.Holds code.toArray state.position ((expression expr).run naming).1.1)
    (reached : ReachesIn linkage reaches state.position
      ((expression expr).run naming).1.1.length) :
    Realizes meaning linkage code.toArray (fun before held printed after => ∃ value,
        held = [value] ∧ expr.Evaluates meaning naming.resolve
          (answers meaning linkage code.toArray reaches) .whenTaken before value printed after)
      state ((expression expr).run naming).1.1.length naming.temporaries
      ((expression expr).run naming).2.temporaries [((expression expr).run naming).1.2] := by
  cases expr with
  | literal constant =>
    refine ⟨?_, fun _ => ⟨_, _, _, _, rfl, .literal⟩⟩
    rintro _ _ _ ⟨_, rfl, ⟨⟩⟩
    cases constant <;> exact ⟨state, .operand _ state fun _ => rfl, rfl⟩
  | identifier =>
    refine ⟨?_, fun _ => ⟨_, _, _, _, rfl, .identifier⟩⟩
    rintro _ _ _ ⟨_, rfl, ⟨⟩⟩
    exact ⟨state, .operand _ state fun _ => rfl, rfl⟩
  | binary operator lhs rhs =>
    rw [run_binary] at holds reached ⊢
    dsimp only at holds reached ⊢
    simp only [holds_append, holds_singleton, length_append, length_singleton] at holds reached ⊢
    obtain ⟨⟨lhsHolds, rhsHolds⟩, here⟩ := holds
    have left := realizes_expression contained links lhs naming lhsHolds reached.left.left
    have right {between : State Value}
        (position : between.position = state.position + ((expression lhs).run naming).1.1.length) :=
      realizes_expression contained links rhs ((expression lhs).run naming).2
        (position ▸ rhsHolds) (position ▸ reached.left.right)
    rw [resolve_expression lhs naming] at right
    constructor
    · rintro _ _ _ ⟨_, rfl, ⟨⟩⟩
      rename_i evaluatedLeft evaluatedRight
      obtain ⟨_, leftYields, rfl⟩ := left.yields ⟨_, rfl, evaluatedLeft⟩
      obtain ⟨_, rightYields, rfl⟩ := (right leftYields.position).yields ⟨_, rfl, evaluatedRight⟩
      rw [← meaning.operate_ofOperator operator]
      exact yields_binary (leftYields.append rightYields) here
    · intro final passes
      obtain ⟨_, operands, _⟩ := passes.split
      obtain ⟨_, toMiddle, toBetween⟩ := operands.split
      obtain ⟨_, _, ⟨_, rfl, evaluatedLeft⟩, leftYields⟩ := left.of_passes toMiddle
      obtain ⟨_, _, _, _, rfl, evaluatedRight⟩ := (right leftYields.position).evaluated toBetween
      exact ⟨_, _, _, _, rfl, .binary evaluatedLeft evaluatedRight⟩
  | call name arguments =>
    rw [run_call] at holds reached ⊢
    dsimp only at holds reached ⊢
    rw [append_assoc, holds_append] at holds
    simp only [length_append, length_map, length_cons, length_nil] at reached ⊢
    have computed := realizes_expressions contained links arguments naming holds.1
      reached.left.left
    generalize (expressions arguments).run naming = given at *
    have atCall {between : State Value}
        (position : between.position = state.position + given.1.1.length) :
        linkage (between.position + given.1.2.length) name = reaches name :=
      congrFun (reached (by rw [position]; omega) (by rw [position]; omega)) name
    constructor
    · rintro _ _ _ ⟨_, rfl, ⟨⟩⟩
      rename_i evaluated called
      obtain ⟨between, yields, rfl⟩ := computed.yields evaluated
      rw [← yields.map_ofOperand] at called
      obtain ⟨_, back, reached, returns, rfl, output, rfl⟩ :=
        returns_of_answers contained links (between.pushing meaning given.1.2)
          (atCall yields.position) rfl called
      rw [length_map] at returns
      exact ⟨_, yields_call links yields (yields.position ▸ holds.2) reached returns output,
        named_write_temporary back _ _⟩
    · intro final passes
      obtain ⟨_, toPushed, toFinal⟩ := passes.split
      obtain ⟨between, toBetween, pushes⟩ := toPushed.split
      obtain ⟨_, _, evaluated, yields⟩ := computed.of_passes toBetween
      have holds := yields.position ▸ holds.2
      rw [holds_append, length_map, holds_cons] at holds
      cases pushes.unique (passes_pushing holds.1)
      obtain ⟨_, _, called, returns⟩ := exists_returns_of_passes toFinal holds.2.1
      rw [← length_map (meaning.ofOperand between.store)] at returns
      obtain ⟨_, _, answered⟩ :=
        answers_of_returns contained links called (atCall yields.position) rfl returns
      rw [yields.map_ofOperand] at answered
      exact ⟨_, _, _, _, rfl, .call evaluated answered⟩

theorem realizes_expressions (contained : Code.IsSelfContained code)
    (links : LinksFunctions linkage code) (exprs : List Expr) (naming : Naming)
    {state : State Value}
    (holds : Code.Holds code.toArray state.position ((expressions exprs).run naming).1.1)
    (reached : ReachesIn linkage reaches state.position
      ((expressions exprs).run naming).1.1.length) :
    Realizes meaning linkage code.toArray (Expr.EvaluatesAll meaning naming.resolve
        (answers meaning linkage code.toArray reaches) .whenTaken exprs)
      state ((expressions exprs).run naming).1.1.length naming.temporaries
      ((expressions exprs).run naming).2.temporaries ((expressions exprs).run naming).1.2 := by
  cases exprs with
  | nil =>
    refine ⟨?_, fun _ => ⟨_, _, _, .nil⟩⟩
    rintro _ _ _ ⟨⟩
    exact ⟨state, .nil _ state, rfl⟩
  | cons first rest =>
    rw [run_cons] at holds reached ⊢
    dsimp only at holds reached ⊢
    simp only [holds_append, length_append] at holds reached ⊢
    have here := realizes_expression contained links first naming holds.1 reached.left
    have later {between : State Value}
        (position : between.position =
          state.position + ((expression first).run naming).1.1.length) :=
      realizes_expressions contained links rest ((expression first).run naming).2
        (position ▸ holds.2) (position ▸ reached.right)
    rw [resolve_expression first naming] at later
    constructor
    · rintro _ _ _ ⟨⟩
      rename_i evaluated next
      obtain ⟨_, firstYields, rfl⟩ := here.yields ⟨_, rfl, evaluated⟩
      obtain ⟨final, restYields, rfl⟩ := (later firstYields.position).yields next
      exact ⟨final, firstYields.append restYields, rfl⟩
    · intro final passes
      obtain ⟨_, toMiddle, toFinal⟩ := passes.split
      obtain ⟨_, _, ⟨_, rfl, evaluated⟩, firstYields⟩ := here.of_passes toMiddle
      obtain ⟨_, _, _, next⟩ := (later firstYields.position).evaluated toFinal
      exact ⟨_, _, _, .cons evaluated next⟩

end

/-- The machine gets behind the code of the expression.  There the operand has the
value, and this has been printed and the variables hold that. -/
def Delivers (meaning : Meaning Value) (linkage : Linkage) (code : Code) (expr : Expr)
    (naming : Naming) (state : State Value) (value : Value) (printed : List Value)
    (after : Variables Value) : Prop :=
  let lowered := ((expression expr).run naming).1
  ∃ final, Passes meaning linkage code lowered.1.length state final ∧
    final.position = state.position + lowered.1.length ∧ final.frames = state.frames ∧
    meaning.ofOperand final.store lowered.2 = value ∧
    final.output = state.output ++ printed ∧ final.store.named = after

theorem delivers_iff_whenTaken (contained : Code.IsSelfContained code)
    (links : LinksFunctions linkage code) {expr : Expr} {naming : Naming} {state : State Value}
    (holds : Code.Holds code.toArray state.position ((expression expr).run naming).1.1)
    (reached : ReachesIn linkage reaches state.position
      ((expression expr).run naming).1.1.length)
    (value : Value) (printed : List Value) (after : Variables Value) :
    Delivers meaning linkage code.toArray expr naming state value printed after ↔
      ∃ held, expr.Evaluates meaning naming.resolve
          (answers meaning linkage code.toArray reaches) .whenTaken state.store.named held
          printed after ∧
        held.read meaning after = value := by
  constructor
  · rintro ⟨final, passes, _, _, rfl, output, rfl⟩
    obtain ⟨_, _, ⟨held, rfl, evaluated⟩, yields⟩ :=
      (realizes_expression contained links expr naming holds reached).of_passes passes
    cases append_cancel_left (yields.output.symm.trans output)
    exact ⟨held, evaluated, (List.cons.inj yields.map_ofOperand).1.symm⟩
  · rintro ⟨held, evaluated, rfl⟩
    obtain ⟨final, yields, rfl⟩ :=
      (realizes_expression contained links expr naming holds reached).yields ⟨held, rfl, evaluated⟩
    exact ⟨final, yields.passes, yields.position, yields.frames,
      (List.cons.inj yields.map_ofOperand).1, yields.output, rfl⟩

end Run

end Lower

/-- The code of an expression evaluates it in the order in which its parts stand,
where every variable is read when the operation or the call that it is an operand
of takes it.  If no call can change, through whatever chain of calls, a variable
that stands to its left and waits to be taken, this is evaluation from left to
right. -/
theorem delivers_expression_iff {meaning : Meaning Value} {linkage : Linkage} {program : Program}
    (links : LinksFunctions linkage program.lower) {reaches : String → Option Callee}
    {expr : Expr} {naming : Naming} {state : State Value}
    (holds : Code.Holds program.lower.toArray state.position
      ((Lower.expression expr).run naming).1.1)
    (reached : Lower.ReachesIn linkage reaches state.position
      ((Lower.expression expr).run naming).1.1.length)
    (value : Value) (printed : List Value) (after : Variables Value) :
    (Lower.Delivers meaning linkage program.lower.toArray expr naming state value printed after ↔
      ∃ held, expr.Evaluates meaning naming.resolve
          (answers meaning linkage program.lower.toArray reaches) .whenTaken
          state.store.named held printed after ∧
        held.read meaning after = value) ∧
    (expr.IsSteady (MayChangeVariable linkage program.lower.toArray reaches) naming.resolve →
      (Lower.Delivers meaning linkage program.lower.toArray expr naming state value printed after ↔
        expr.Evaluates meaning naming.resolve
          (answers meaning linkage program.lower.toArray reaches) .whenReached
          state.store.named (.value value) printed after)) := by
  have keeps : (answers meaning linkage program.lower.toArray reaches).Keeps _ :=
    answers_keeps program.lower.toArray
  have whenTaken : Lower.Delivers meaning linkage program.lower.toArray expr naming state value
      printed after ↔ _ :=
    Lower.delivers_iff_whenTaken (isSelfContained_lower program) links holds reached value printed
      after
  refine ⟨whenTaken, fun steady => whenTaken.trans ⟨?_, fun evaluated => ?_⟩⟩
  · rintro ⟨held, evaluated, rfl⟩
    obtain ⟨_, reached, same⟩ := expr.exists_evaluates keeps steady evaluated
    rwa [Expr.eq_value_of_whenReached reached, same] at reached
  · exact expr.exists_evaluates keeps steady evaluated

/-- The operands of a sum: a variable, and a call whose function changes another
variable and prints its argument. -/
def keepingOperand : Expr :=
  .binary .add (.identifier "x")
    (.call "f" [.binary .add (.identifier "y") (.literal (.string "d"))])

/-- A program that prints the sum. -/
def keeping : Program :=
  ⟨[.declaration "x" (some (.literal (.string "a"))),
    .declaration "y" (some (.literal (.string "b"))),
    .function "f" ["p"] [.assignment "y" (.identifier "p"), .print (.identifier "p"),
      .giveBack (some (.literal (.string "c")))],
    .print keepingOperand]⟩

/-- Every call reaches the function of the program, which has its parameter and the
temporaries for itself. -/
def keepingLinkage : Linkage := fun _ _ =>
  some ⟨4, [.variable (slotName 0 0)],
    fun place => place.temporary?.isSome || place = .variable (slotName 0 0)⟩

/-- The state in front of the code of the sum. -/
def keepingState : State ScriptValue :=
  (((State.start (Meaning.script .coarse)).write (.variable "x") (.string "a")).write
    (.variable "y") (.string "b")).goTo 8

theorem isSteady_keepingOperand :
    keepingOperand.IsSteady
      (MayChangeVariable keepingLinkage keeping.lower.toArray (keepingLinkage 8))
      (Naming.resolve {}) := by
  have unreached (position : Nat) (changes : MayChange keepingLinkage keeping.lower.toArray
      (.variable "x") position) : position ∉ [4, 5, 6] := by
    intro member
    simp only [mem_cons, not_mem_nil, or_false] at member
    induction changes with
    | write found writes =>
      rcases member with rfl | rfl | rfl <;> cases found <;> exact absurd writes (by decide)
    | next found follows later ih =>
      rcases member with rfl | rfl | rfl <;> cases found
      · exact ih (.inr (.inl (mem_singleton.mp follows)))
      · exact ih (.inr (.inr (mem_singleton.mp follows)))
      · cases follows
    | call found | parameter found => rcases member with rfl | rfl | rfl <;> cases found
  refine ⟨trivial, ⟨⟨trivial, trivial, ?_⟩, trivial, ?_⟩, ?_⟩
  · rintro name function _ ⟨⟩
  · rintro name function _ ⟨⟩
  · rintro name function ⟨⟩ _ ⟨callee, ⟨⟩, _, takes | inside⟩
    · exact absurd takes (by decide)
    · exact unreached 4 inside (by decide)

/-- The code of the sum evaluates it from left to right: the function changes `y`
and prints `bd`, and `x` still holds `a` when the sum takes it. -/
theorem delivers_keepingOperand :
    LinksFunctions keepingLinkage keeping.lower ∧
    ∃ after, Lower.Delivers (Meaning.script .coarse) keepingLinkage keeping.lower.toArray
        keepingOperand {} keepingState (.string "ac") [.string "bd"] after ∧
      after "x" = .string "a" ∧ after "y" = .string "bd" := by
  have links : LinksFunctions keepingLinkage keeping.lower := by
    constructor
    · rintro position name callee ⟨⟩
      exact ⟨3, "f", 1, rfl, rfl⟩
    · rintro position name callee ⟨⟩ number
      rfl
  have holds : Code.Holds keeping.lower.toArray keepingState.position
      ((Lower.expression keepingOperand).run {}).1.1 := by
    show ∀ index, index < 5 → _
    decide
  have reached : Lower.ReachesIn keepingLinkage (keepingLinkage 8) keepingState.position
      ((Lower.expression keepingOperand).run {}).1.1.length := fun _ _ _ => rfl
  have given : Expr.EvaluatesAll (Meaning.script .coarse) (Naming.resolve {})
      (answers (Meaning.script .coarse) keepingLinkage keeping.lower.toArray (keepingLinkage 8))
      .whenReached [.binary .add (.identifier "y") (.literal (.string "d"))]
      keepingState.store.named [.value (.string "bd")] [] keepingState.store.named :=
    .cons (.binary .identifier .literal) .nil
  have called : ∃ after, answers (Meaning.script .coarse) keepingLinkage keeping.lower.toArray
      (keepingLinkage 8) "f" [.string "bd"] keepingState.store.named (.string "c")
      [.string "bd"] after ∧ after "x" = .string "a" ∧ after "y" = .string "bd" :=
    ⟨_, ⟨_, _, rfl, .next rfl rfl (.next rfl rfl (.leave rfl rfl)), rfl, rfl, rfl⟩, rfl, rfl⟩
  obtain ⟨after, called, unchanged, changed⟩ := called
  have evaluated : keepingOperand.Evaluates (Meaning.script .coarse) (Naming.resolve {})
      (answers (Meaning.script .coarse) keepingLinkage keeping.lower.toArray (keepingLinkage 8))
      .whenReached keepingState.store.named (.value (.string "ac")) [.string "bd"] after :=
    .binary .identifier (.call given called)
  exact ⟨links, after, ((delivers_expression_iff links holds reached _ _ _).2
    isSteady_keepingOperand).mpr evaluated, unchanged, changed⟩

/-- A sum whose second operand changes its first one. -/
def changingOperand : Expr := .binary .add (.identifier "x") (.call "f" [])

/-- A program that prints the sum. -/
def changing : Program :=
  ⟨[.declaration "x" (some (.literal (.string "a"))),
    .function "f" [] [.assignment "x" (.literal (.string "b")),
      .giveBack (some (.literal (.string "c")))],
    .print changingOperand]⟩

/-- Every call reaches the function of the program, which has the temporaries for
itself. -/
def changingLinkage : Linkage := fun _ _ => some ⟨3, [], fun place => place.temporary?.isSome⟩

/-- The state in front of the code of the sum. -/
def changingState : State ScriptValue :=
  ((State.start (Meaning.script .coarse)).write (.variable "x") (.string "a")).goTo 6

/-- The code does not evaluate all expressions from left to right.  In `x + f()` the
variable has been reached before the call that changes it, but the sum takes what
the call has left in it. -/
theorem not_delivers_whenReached :
    changing.IsSpelled ∧ (changing.check .flat).isValid ∧ (changing.check .lexical).isValid ∧
    LinksFunctions changingLinkage changing.lower ∧
    Prints (Meaning.script .coarse) changingLinkage changing.lower.toArray [.string "bc"] ∧
    run (Meaning.script .coarse) changingLinkage changing.lower.toArray 3
      (State.start (Meaning.script .coarse)) = some changingState ∧
    Code.Holds changing.lower.toArray changingState.position
      ((Lower.expression changingOperand).run {}).1.1 ∧
    ∃ after, changingOperand.Evaluates (Meaning.script .coarse) (Naming.resolve {})
        (answers (Meaning.script .coarse) changingLinkage changing.lower.toArray
          (changingLinkage changingState.position)) .whenReached changingState.store.named
        (.value (.string "ac")) [] after ∧
      ¬ Lower.Delivers (Meaning.script .coarse) changingLinkage changing.lower.toArray
        changingOperand {} changingState (.string "ac") [] after := by
  have links : LinksFunctions changingLinkage changing.lower := by
    constructor
    · rintro position name callee ⟨⟩
      exact ⟨2, "f", 0, rfl, rfl⟩
    · rintro position name callee ⟨⟩ number
      rfl
  refine ⟨⟨"dhore x = \"a\"; function f() \x7b x = \"b\"; ferot \"c\"; \x7d dekhao(x + f());",
    by decide +kernel⟩, by decide, by decide, links, ⟨9, _, rfl, rfl, rfl⟩, rfl, ?_,
    (changingState.store.set (.variable "x") (.string "b")).named, ?_, ?_⟩
  · show ∀ index, index < 3 → _
    decide
  · have called : answers (Meaning.script .coarse) changingLinkage changing.lower.toArray
        (changingLinkage changingState.position) "f" [] changingState.store.named (.string "c")
        [] (changingState.store.set (.variable "x") (.string "b")).named :=
      ⟨_, _, rfl, .next rfl rfl (.leave rfl rfl), rfl, rfl, rfl⟩
    exact .binary .identifier (.call .nil called)
  · rintro ⟨final, passes, _, _, value, _⟩
    have others : Passes (Meaning.script .coarse) changingLinkage changing.lower.toArray 3
        changingState _ :=
      .call rfl rfl (.next rfl rfl (.leave rfl rfl)) (.next rfl rfl (.next rfl rfl .done))
    cases passes.unique others
    exact absurd value (by decide)

end BanglaScript
