import BanglaScript.Proofs.Lowering.Simulation
import BanglaScript.Proofs.Parser.Words
import BanglaScript.Proofs.Script.Values

/-!
# Lowering keeps the meaning

Statements run on their tree exactly when the machine gets through their code.
One direction follows a run on the tree, statement by statement.  The other
takes a run of the machine that reaches the end of the code: every statement
either is passed, or it is entered at the cost of at least one step.
-/

namespace BanglaScript

open Bool

namespace Lower

open StateRun Machine Naming Statement

variable {Value : Type} {meaning : Meaning Value} {linkage : Linkage} {code : Code} {start : Nat}
  {phrases : List Statement} {program : Program}

/-- The code of statements stands at a position.  They were lowered where the
given names are bound, use no others, and are plain. -/
structure Laid (code : Code) (position : Nat) (naming : Naming) (names : List String)
    (phrases : List Statement) : Prop where
  ready : naming.Ready names
  closed : AreClosedIn names phrases
  plain : allIn isPlain Expr.isBasic phrases
  holds : code.Holds position ((statements phrases).run naming).1

namespace Laid

variable {position : Nat} {naming : Naming} {names : List String} {first : Statement}
  {rest : List Statement}

section

variable (laid : Laid code position naming names (first :: rest))

include laid

theorem head_plain : first.all isPlain Expr.isBasic := by
  have plain := laid.plain
  simp only [allIn, and_eq_true] at plain
  exact plain.1

theorem head_holds : code.Holds position ((statement first).run naming).1 :=
  ((code.holds_append _ _ _).mp laid.holds).1

theorem tail : Laid code (position + ((statement first).run naming).1.length)
      ((statement first).run naming).2 (first.declared ++ names) rest := by
  have plain := laid.plain
  simp only [allIn, and_eq_true] at plain
  exact ⟨ready_statement first laid.ready plain.1, laid.closed.2, plain.2,
    ((code.holds_append _ _ _).mp laid.holds).2⟩

end

/-- A body inside of a block. -/
theorem inside {entered : Naming} {body : List Statement} (ready : naming.Ready names)
    (same : SameScopes naming entered) (closed : AreClosedIn names body)
    (plain : allIn isPlain Expr.isBasic body)
    (holds : code.Holds start ((statements body).run entered.openScope).1) :
    Laid code start entered.openScope names body :=
  ⟨(ready.of_sameScopes same).openScope, closed, plain, holds⟩

end Laid

/-- The machine runs through the code of statements. -/
def FollowsAll (meaning : Meaning Value) (linkage : Linkage) (code : Code) (state : State Value)
    (phrases : List Statement) (naming : Naming) (output : List Value) (final : Scopes Value) :
    Prop :=
  Completes meaning linkage code state (state.position + ((statements phrases).run naming).1.length)
    ((statements phrases).run naming).2 output final

/-- The machine runs through the code of statements wherever it stands. -/
def RunsThrough (meaning : Meaning Value) (linkage : Linkage) (code : Code)
    (phrases : List Statement) (scopes : Scopes Value) (output : List Value)
    (final : Scopes Value) : Prop :=
  ∀ {naming : Naming} {names : List String} {state : State Value},
    Laid code state.position naming names phrases → naming.view state.store = scopes →
      FollowsAll meaning linkage code state phrases naming output final

section Following

variable {naming : Naming} {names : List String} {state : State Value}
  {output more : List Value} {middle final : Scopes Value} {body : List Statement} {finish : Nat}
  {later : Naming}

/-- After the first statement come the others. -/
theorem Follows.cons {first : Statement} {rest : List Statement}
    (follows : Follows meaning linkage code state first naming output middle)
    (laid : Laid code state.position naming names (first :: rest))
    (next : RunsThrough meaning linkage code rest middle more final) :
    FollowsAll meaning linkage code state (first :: rest) naming (output ++ more) final := by
  have both : Completes meaning linkage code state
      (state.position + ((statement first).run naming).1.length +
        ((statements rest).run ((statement first).run naming).2).1.length)
      ((statements (first :: rest)).run naming).2 (output ++ more) final := by
    refine Completes.andThen follows fun between position view => ?_
    rw [← position]
    exact next (position ▸ laid.tail) view
  refine both.endingAt ?_
  rw [Nat.add_assoc, ← List.length_append]
  rfl

section

variable (enters : Enters meaning linkage code state naming body finish later)
  (ready : naming.Ready names) (closed : AreClosedIn names body)
  (plain : allIn isPlain Expr.isBasic body)

include enters ready closed plain

/-- What is known where the machine enters a body. -/
theorem Enters.arrives : ∃ start entered, Arrives meaning linkage code state start ∧
      ∀ between : State Value, between.position = start →
        (∀ naming : Naming, naming.view between.store = naming.view state.store) →
        Laid code between.position (openScope entered) names body ∧
          entered.openScope.view between.store = [] :: naming.view state.store ∧
          ∀ {output : List Value} {inner : Scopes Value},
            RunsThrough meaning linkage code body ([] :: naming.view state.store) output inner →
            Completes meaning linkage code between finish later output inner.tail := by
  obtain ⟨start, entered, arrives, same, holds, leads⟩ := enters
  refine ⟨start, entered, arrives, fun between position view => ?_⟩
  subst position
  have laid := Laid.inside ready same closed plain holds
  have opened : entered.openScope.view between.store = [] :: naming.view state.store := by
    rw [← view naming, Naming.view, Naming.openScope, same.scopes]
    rfl
  exact ⟨laid, opened, fun inside => leads _ _ _ (inside laid opened).closeScope⟩

/-- A body that is entered is run, and left. -/
theorem Enters.completes
    (inside : RunsThrough meaning linkage code body ([] :: naming.view state.store) output final) :
    Completes meaning linkage code state finish later output final.tail := by
  obtain ⟨_, _, arrives, known⟩ := enters.arrives ready closed plain
  exact arrives.andThen fun between position view => (known between position view).2.2 inside

end

theorem follows_block (ready : naming.Ready names) (closed : AreClosedIn names body)
    (plain : allIn isPlain Expr.isBasic body)
    (holds : code.Holds state.position ((statement (.block body)).run naming).1)
    (inside : RunsThrough meaning linkage code body ([] :: naming.view state.store) output final) :
    Follows meaning linkage code state (.block body) naming output final.tail := by
  have laid : Laid code state.position naming.openScope names body :=
    ⟨ready.openScope, closed, plain, holds⟩
  exact Completes.closeScope (inside laid rfl)

end Following

/-- The machine follows every run on the tree. -/
theorem runsThrough_of_runs (distinct : code.LabelsDistinct) {scopes final : Scopes Value}
    {output : List Value} (runs : Runs meaning phrases scopes output final) :
    RunsThrough meaning linkage code phrases scopes output final := by
  induction runs with (
    intro naming names state laid view
    subst view
    try (have plain := laid.head_plain; simp only [all, and_eq_true] at plain))
  | done => exact ⟨0, state, rfl, rfl, (List.append_nil _).symm, rfl⟩
  | declare evaluated next ih =>
    exact (follows_declaration laid.ready.separates evaluated (isPlain_of_declaration plain.1).2
      laid.head_holds).cons laid ih
  | declareOnly => simp [isPlain, isBasic] at plain
  | assign evaluated assigned next ih =>
    obtain ⟨_, bound⟩ :=
      Option.isSome_iff_exists.mp (laid.ready.bound _ laid.closed.1.2)
    exact (follows_assignment laid.ready.separates evaluated bound laid.head_holds
      assigned).cons laid ih
  | thenTrue evaluated test inside next insideThrough ih =>
    have enters : Enters meaning linkage code state naming _ _ _ :=
      (tests_ifThen laid.ready distinct evaluated laid.head_holds).1 test
    have follows : Follows meaning linkage code state _ naming _ _ :=
      enters.completes laid.ready laid.closed.1.2 plain.2 insideThrough
    exact follows.cons laid ih
  | thenFalse evaluated test next ih =>
    exact ((tests_ifThen laid.ready distinct evaluated laid.head_holds).2 test).cons laid ih
  | elseTrue evaluated test inside next insideThrough ih =>
    have enters : Enters meaning linkage code state naming _ _ _ :=
      enters_ifElse laid.ready distinct evaluated laid.head_holds
    rw [test] at enters
    have follows : Follows meaning linkage code state _ naming _ _ :=
      enters.completes laid.ready laid.closed.1.2.1 plain.1.2 insideThrough
    exact follows.cons laid ih
  | elseFalse evaluated test inside next insideThrough ih =>
    have enters : Enters meaning linkage code state naming _ _ _ :=
      enters_ifElse laid.ready distinct evaluated laid.head_holds
    rw [test] at enters
    have follows : Follows meaning linkage code state _ naming _ _ :=
      enters.completes laid.ready laid.closed.1.2.2 plain.2 insideThrough
    exact follows.cons laid ih
  | loopTrue evaluated test inside again insideThrough ih =>
    have enters : Enters meaning linkage code state naming _ _ _ :=
      (tests_repeatWhile laid.ready distinct evaluated laid.head_holds).1 test
    have turn := enters.completes laid.ready laid.closed.1.2 plain.2 insideThrough
    refine turn.andThen fun between position view => ?_
    rw [← position] at laid ⊢
    exact ih laid view
  | loopFalse evaluated test next ih =>
    exact ((tests_repeatWhile laid.ready distinct evaluated laid.head_holds).2 test).cons laid ih
  | block inside next insideThrough ih =>
    exact (follows_block laid.ready laid.closed.1 plain.2 laid.head_holds insideThrough).cons
      laid ih
  | print evaluated next ih =>
    exact (follows_print laid.ready.separates evaluated laid.head_holds).cons laid ih
  | expression evaluated next ih =>
    exact (follows_expression laid.ready.separates evaluated laid.head_holds).cons laid ih

/-- The machine reaches the end of the code in this number of steps. -/
def Halts (meaning : Meaning Value) (linkage : Linkage) (code : Code) (total : Nat)
    (state : State Value) : Prop :=
  ∃ final, run meaning linkage code total state = some final ∧ final.position = code.size

namespace Halts

variable {state : State Value} {total : Nat}

variable (halts : Halts meaning linkage code total state)

include halts

/-- Whatever is reached lies on the way to the end. -/
theorem after {count : Nat}
    {between : State Value} (reached : run meaning linkage code count state = some between) :
    ∃ rest, total = count + rest ∧ Halts meaning linkage code rest between := by
  obtain ⟨final, toFinal, ended⟩ := halts
  obtain ⟨rest, total_eq, restRun⟩ :=
    run_through toFinal (step_eq_none_of_size_le (Nat.le_of_eq ended.symm)) reached
  exact ⟨rest, total_eq, final, restRun, ended⟩

theorem afterCompleting {finish : Nat}
    {naming : Naming} {output : List Value} {final : Scopes Value}
    (completes : Completes meaning linkage code state finish naming output final) :
    ∃ rest ≤ total, ∃ between : State Value, Halts meaning linkage code rest between ∧
      between.position = finish ∧ naming.view between.store = final := by
  obtain ⟨_, between, reached, position, _, view⟩ := completes
  obtain ⟨rest, rfl, restHalts⟩ := halts.after reached
  exact ⟨rest, Nat.le_add_left _ _, between, restHalts, position, view⟩

theorem afterArriving (arrives : Arrives meaning linkage code state start) :
    ∃ rest < total, ∃ between : State Value, Halts meaning linkage code rest between ∧
      between.position = start ∧
      ∀ naming : Naming, naming.view between.store = naming.view state.store := by
  obtain ⟨_, between, reached, position, _, same⟩ := arrives
  obtain ⟨rest, rfl, restHalts⟩ := halts.after reached
  exact ⟨rest, by omega, between, restHalts, position, fun naming => view_congr same⟩

end Halts

/-- Whenever the machine reaches the end of the code from where the code of the
statements stands, the statements run on the tree. -/
def Recoverable (meaning : Meaning Value) (linkage : Linkage) (code : Code) (total : Nat)
    (phrases : List Statement) : Prop :=
  ∀ ⦃naming : Naming⦄ ⦃names : List String⦄ ⦃state : State Value⦄,
    Laid code state.position naming names phrases → Halts meaning linkage code total state →
      ∃ output final, Runs meaning phrases (naming.view state.store) output final

section Recovering

variable {naming : Naming} {names : List String} {state : State Value} {total : Nat}
  {first : Statement} {rest : List Statement} {body : List Statement} {finish : Nat}
  {later : Naming}

/-- The statements behind one that is passed. -/
theorem Recoverable.afterFirst (next : ∀ less ≤ total, Recoverable meaning linkage code less rest)
    (laid : Laid code state.position naming names (first :: rest))
    (halts : Halts meaning linkage code total state) {output : List Value} {middle : Scopes Value}
    (follows : Follows meaning linkage code state first naming output middle) :
    ∃ output final, Runs meaning rest middle output final := by
  obtain ⟨less, ordered, _, lessHalts, position, view⟩ := halts.afterCompleting follows
  subst view
  exact next less ordered (position ▸ laid.tail) lessHalts

/-- A body that is entered runs on the tree, and what is left takes fewer
steps. -/
theorem Recoverable.enter (inside : ∀ less < total, Recoverable meaning linkage code less body)
    (distinct : code.LabelsDistinct) (ready : naming.Ready names) (closed : AreClosedIn names body)
    (plain : allIn isPlain Expr.isBasic body) (halts : Halts meaning linkage code total state)
    (enters : Enters meaning linkage code state naming body finish later) :
    ∃ output inner, Runs meaning body ([] :: naming.view state.store) output inner ∧
      ∃ less < total, ∃ between : State Value, Halts meaning linkage code less between ∧
        between.position = finish ∧ later.view between.store = inner.tail := by
  obtain ⟨_, _, arrives, known⟩ := enters.arrives ready closed plain
  obtain ⟨less, ordered, between, lessHalts, position, view⟩ := halts.afterArriving arrives
  obtain ⟨laid, opened, completes⟩ := known between position view
  obtain ⟨output, inner, runs⟩ := inside less ordered laid lessHalts
  rw [opened] at runs
  obtain ⟨least, below, behind⟩ :=
    lessHalts.afterCompleting (completes (runsThrough_of_runs distinct runs))
  exact ⟨output, inner, runs, least, Nat.lt_of_le_of_lt below ordered, behind⟩

end Recovering

/-! ### One statement at a time -/

/-- What the machine does at the code of a first statement: it gets through this code, or
it gets to a body, at the cost of a step, and behind the body to statements that are left.
A block is entered without a step.  The tree runs alike. -/
inductive Advances (meaning : Meaning Value) (linkage : Linkage) (code : Code)
    (state : State Value) (naming : Naming) (names : List String) (first : Statement)
    (rest : List Statement) : Prop
  | passes {output : List Value} {middle : Scopes Value}
    (follows : Follows meaning linkage code state first naming output middle)
    (runs : ∀ {more final}, Runs meaning rest middle more final →
      Runs meaning (first :: rest) (naming.view state.store) (output ++ more) final)
  | enters {body left : List Statement} {finish : Nat} {later : Naming} {around : List String}
    (enters : Enters meaning linkage code state naming body finish later)
    (closed : AreClosedIn names body) (plain : allIn isPlain Expr.isBasic body)
    (laid : Laid code finish later around left)
    (runs : ∀ {output inner more final}, Runs meaning body ([] :: naming.view state.store) output
      inner → Runs meaning left inner.tail more final →
      Runs meaning (first :: rest) (naming.view state.store) (output ++ more) final)
  | opens {body : List Statement} (isBlock : first = .block body)

/-- Every statement whose code is reached lets the machine advance, since its expressions
have values. -/
theorem Laid.advances (distinct : code.LabelsDistinct) {naming : Naming} {names : List String}
    {state : State Value} {first : Statement} {rest : List Statement}
    (laid : Laid code state.position naming names (first :: rest)) :
    Advances meaning linkage code state naming names first rest := by
  have plain := laid.head_plain
  have holds := laid.head_holds
  have separates := laid.ready.separates
  have valued (expr : Expr) (closed : expr.isClosedIn names) (basic : expr.all Expr.isBasic) :=
    exists_value meaning expr laid.ready closed basic state.store
  cases first with simp only [all, and_eq_true] at plain
  | declaration =>
    obtain ⟨given, namePlain⟩ := isPlain_of_declaration plain.1
    obtain ⟨value, rfl⟩ := Option.isSome_iff_exists.mp given
    obtain ⟨result, evaluated⟩ := valued value (laid.closed.1 value rfl) plain.2
    exact .passes (follows_declaration separates evaluated namePlain holds) (.declare evaluated)
  | assignment name value =>
    obtain ⟨_, bound⟩ :=
      Option.isSome_iff_exists.mp (laid.ready.bound _ laid.closed.1.2)
    obtain ⟨result, evaluated⟩ := valued value laid.closed.1.1 plain.2
    have assigned : (naming.view state.store).assign? name result = some _ :=
      assign?_map_viewScope separates.distinct bound result
    exact .passes (follows_assignment separates evaluated bound holds assigned)
      (.assign evaluated assigned)
  | ifThen condition =>
    obtain ⟨value, evaluated⟩ := valued condition laid.closed.1.1 plain.1.2
    obtain ⟨whenTrue, whenFalse⟩ := tests_ifThen laid.ready distinct evaluated holds
    cases test : meaning.isTrue value with
    | false => exact .passes (whenFalse test) (.thenFalse evaluated test)
    | true =>
      exact .enters (whenTrue test) laid.closed.1.2 plain.2 laid.tail (.thenTrue evaluated test)
  | ifElse condition =>
    obtain ⟨value, evaluated⟩ := valued condition laid.closed.1.1 plain.1.1.2
    have entered : Enters meaning linkage code state naming _ _ _ :=
      enters_ifElse laid.ready distinct evaluated holds
    cases test : meaning.isTrue value with rw [test] at entered
    | true =>
      exact .enters entered laid.closed.1.2.1 plain.1.2 laid.tail (.elseTrue evaluated test)
    | false => exact .enters entered laid.closed.1.2.2 plain.2 laid.tail (.elseFalse evaluated test)
  | repeatWhile condition =>
    obtain ⟨value, evaluated⟩ := valued condition laid.closed.1.1 plain.1.2
    obtain ⟨whenTrue, whenFalse⟩ := tests_repeatWhile laid.ready distinct evaluated holds
    cases test : meaning.isTrue value with
    | false => exact .passes (whenFalse test) (.loopFalse evaluated test)
    | true => exact .enters (whenTrue test) laid.closed.1.2 plain.2 laid (.loopTrue evaluated test)
  | block => exact .opens rfl
  | function | giveBack => simp [isPlain, isBasic] at plain
  | print value =>
    obtain ⟨result, evaluated⟩ := valued value laid.closed.1 plain.2
    exact .passes (follows_print separates evaluated holds) (.print evaluated)
  | expression value =>
    obtain ⟨_, evaluated⟩ := valued value laid.closed.1 plain.2
    exact .passes (follows_expression separates evaluated holds) (.expression evaluated)

/-- What a machine that reaches the end of the code runs through is run on the
tree.  The induction is on the number of steps and then on the statements. -/
theorem recoverable (distinct : code.LabelsDistinct) (total : Nat) (phrases : List Statement) :
    Recoverable meaning linkage code total phrases := by
  intro naming names state laid halts
  match phrases with
  | [] => exact ⟨_, _, .done⟩
  | first :: rest =>
    have next := fun less (ordered : less ≤ total) => recoverable distinct less rest
    cases laid.advances distinct with
    | passes follows runs =>
      obtain ⟨more, final, restRuns⟩ := Recoverable.afterFirst next laid halts follows
      exact ⟨_, _, runs restRuns⟩
    | @enters body left _ _ _ enters closed plain leftLaid runs =>
      have inside := fun less (ordered : less < total) => recoverable distinct less body
      obtain ⟨output, inner, bodyRuns, less, ordered, _, lessHalts, position, view⟩ :=
        Recoverable.enter inside distinct laid.ready closed plain halts enters
      obtain ⟨more, final, leftRuns⟩ :=
        recoverable distinct less left (position ▸ leftLaid) lessHalts
      exact ⟨_, _, runs bodyRuns (view ▸ leftRuns)⟩
    | @opens body isBlock =>
      subst isBlock
      have plain := laid.head_plain
      simp only [all, and_eq_true] at plain
      have bodyLaid := Laid.inside laid.ready ⟨rfl, Nat.le_refl _⟩ laid.closed.1 plain.2
        laid.head_holds
      obtain ⟨_, _, bodyRuns⟩ := recoverable distinct total body bodyLaid halts
      obtain ⟨_, _, restRuns⟩ := Recoverable.afterFirst next laid halts
        (follows_block laid.ready laid.closed.1 plain.2 laid.head_holds
          (runsThrough_of_runs distinct bodyRuns))
      exact ⟨_, _, .block bodyRuns restRuns⟩
termination_by (total, sizeOf phrases)
decreasing_by
  all_goals first
    | exact Prod.Lex.left _ _ ordered
    | exact Prod.Lex.right' _ ordered (by simp +arith)
    | exact Prod.Lex.right _ (by simp +arith [isBlock])

/-! ## Programs -/

theorem labelsDistinct_lower (program : Program) :
    Code.LabelsDistinct program.lower.toArray := by
  refine Code.labelsDistinct_toArray ?_
  rw [LabelledNode.lower_eq_instructionsAll]
  exact LabelledNode.nodup_definedLabels_ofProgram program

variable (words : program.declaresWords) (valid : (program.check .lexical).isValid)
  (basic : program.isBasic)

include words valid basic

/-- A program that is lowered stands at the beginning of its code. -/
theorem laid_lower :
    Laid program.lower.toArray 0 (openScope {}) [] program.body where
  ready := ⟨⟨List.cons_ne_nil _ _, List.nodup_nil, by simp [entries, openScope],
    by simp [entries, openScope]⟩, by simp⟩
  closed := areClosedIn_of_isValid valid
  plain := allIn_isPlain program.body basic words
  holds := Code.holds_toArray _

/-- The end of the code is reached with the output of a run on the tree. -/
theorem reaches_end (linkage : Linkage) {output : List Value} {final : Scopes Value}
    (runs : Runs meaning program.body [[]] output final) :
    ∃ count target, run meaning linkage program.lower.toArray count (State.start meaning) =
        some target ∧
      target.position = program.lower.toArray.size ∧ target.output = output := by
  have laid : Laid program.lower.toArray (State.start meaning).position _ _ _ :=
    laid_lower words valid basic
  obtain ⟨count, target, reached, position, printed, _⟩ :=
    runsThrough_of_runs (labelsDistinct_lower program) runs laid rfl
  refine ⟨count, target, reached, position.trans ?_, printed⟩
  rw [List.size_toArray]
  exact Nat.zero_add _

/-- A program runs on its tree exactly when its code runs on the machine, with
the same output.  That it declares words only keeps its names apart from the
fresh ones. -/
theorem prints_iff (output : List Value) :
    program.Prints meaning output ↔
      Machine.Prints meaning linkage program.lower.toArray output := by
  constructor
  · rintro ⟨final, runs⟩
    exact reaches_end words valid basic linkage runs
  · rintro ⟨total, last, toLast, ended, rfl⟩
    have laid : Laid program.lower.toArray (State.start meaning).position _ _ _ :=
      laid_lower words valid basic
    obtain ⟨_, final, runs⟩ :=
      recoverable (labelsDistinct_lower program) total _ laid ⟨last, toLast, ended⟩
    obtain ⟨_, target, reached, position, printed⟩ :=
      reaches_end words valid basic linkage runs
    have same : target = last :=
      eq_of_stopped reached (step_eq_none_of_size_le (Nat.le_of_eq position.symm)) toLast
        (step_eq_none_of_size_le (Nat.le_of_eq ended.symm))
    rw [← same, printed]
    exact ⟨final, runs⟩

end Lower

/-- Lowering keeps the meaning of every program without functions that a text
spells and that the lexical check accepts, whatever values are, the ten operators
compute and tests decide: the program prints an output exactly when its code
falls off the end having printed it.  The tree applies the operators themselves,
the machine what its opcodes stand for. -/
theorem prints_lower_iff {Value : Type} (meaning : Meaning Value) (linkage : Machine.Linkage)
    {program : Program} (spelled : program.IsSpelled)
    (valid : (program.check .lexical).isValid) (basic : program.isBasic) (output : List Value) :
    program.Prints meaning output ↔
      Machine.Prints meaning linkage program.lower.toArray output :=
  Lower.prints_iff spelled.declaresWords valid basic output

/-- A text grows in a loop.  In the second round a variable of a block hides it. -/
def growing : Program :=
  ⟨[.declaration "s" (some (.literal (.string "a"))),
    .repeatWhile (.binary .notEqual (.identifier "s") (.literal (.string "aaa")))
      [.declaration "u" (some (.binary .add (.identifier "s") (.literal (.string "b")))),
        .ifElse (.binary .equal (.identifier "s") (.literal (.string "aa")))
          [.declaration "s" (some (.binary .add (.identifier "u") (.literal (.string "c")))),
            .print (.identifier "s")]
          [.print (.identifier "u")],
        .assignment "s" (.binary .add (.identifier "s") (.literal (.string "a")))],
    .print (.identifier "s")]⟩

/-- The code goes round twice, enters each branch once and prints the hidden text when it
has grown. -/
theorem prints_lower_growing :
    growing.IsSpelled ∧ (growing.check .lexical).isValid ∧ growing.isBasic ∧
      growing.Prints (Meaning.script .coarse) [.string "ab", .string "aabc", .string "aaa"] ∧
      Machine.Prints (Meaning.script .coarse) (fun _ _ => none) growing.lower.toArray
        [.string "ab", .string "aabc", .string "aaa"] := by
  have spelled : growing.IsSpelled :=
    ⟨"dhore s = \"a\"; jotokkhon (s != \"aaa\") \x7b dhore u = s + \"b\";" ++
      "jode (s == \"aa\") \x7b dhore s = u + \"c\"; dekhao(s); \x7d " ++
      "onnathay \x7b dekhao(u); \x7d s = s + \"a\"; \x7d dekhao(s);", by decide +kernel⟩
  have valid : (growing.check .lexical).isValid := by decide
  have basic : growing.isBasic := by decide
  have printed : growing.Prints (Meaning.script .coarse)
      [.string "ab", .string "aabc", .string "aaa"] :=
    ⟨_, .declare rfl
      (.loopTrue rfl rfl
        (.declare rfl (.elseFalse rfl rfl (.print rfl .done) (.assign rfl rfl .done)))
        (.loopTrue rfl rfl
          (.declare rfl (.elseTrue rfl rfl (.declare rfl (.print rfl .done))
            (.assign rfl rfl .done)))
          (.loopFalse rfl rfl (.print rfl .done))))⟩
  exact ⟨spelled, valid, basic, printed,
    (prints_lower_iff (Meaning.script .coarse) _ spelled valid basic _).mp printed⟩

end BanglaScript
